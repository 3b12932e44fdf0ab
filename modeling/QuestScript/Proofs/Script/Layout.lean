import QuestScript.Proofs.Script.LabelTable
import QuestScript.Proofs.Script.Size

/-! Where the segments of a script stand among the bytes that it is written in, what its label table
says about them, and which scripts cannot be written.

Sizes are computed from the arguments, and bytes are written from them: both go through the types of
the parameters on their own. -/

namespace QuestScript

/-- A label is written if it is a word. -/
theorem Arg.exists_labelBytes_iff {arg : Arg} :
    (∃ bytes, arg.labelBytes = .ok bytes) ↔
      0 ≤ arg.toInt32.toInt ∧ arg.toInt32.toInt ≤ 65535 := by
  unfold labelBytes
  dsimp only
  -- Any other number is refused.
  split
  · rename_i inside
    exact iff_of_true ⟨_, rfl⟩ inside
  · rename_i outside
    exact iff_of_false (by simp) outside

namespace Param

variable {width : CharWidth} {mnemonic : String} {index : Nat} {param : Param}

/-- Arguments that cannot be written for a parameter: labels that are no words, and single values of
the types that have no spelling in bytes. -/
def Refuses (param : Param) (args : List Arg) : Prop :=
  (param.isLabel = true ∧
      ∃ arg ∈ args, ¬(0 ≤ arg.toInt32.toInt ∧ arg.toInt32.toInt ≤ 65535)) ∨
    param.variadic = false ∧ (param.item = .scalar .pointer ∨ param.item = .scalar .any)

/-- Of the items of a variadic parameter, only labels may fail to be written. -/
theorem exists_encodeElement_iff {arg : Arg} :
    (∃ bytes, param.encodeElement arg = .ok bytes) ↔
      (param.isLabel = true → 0 ≤ arg.toInt32.toInt ∧ arg.toInt32.toInt ≤ 65535) := by
  obtain ⟨item, variadic, access⟩ := param
  cases item with
  | register => simp [encodeElement, isLabel]
  | tuple elements => simp [encodeElement, isLabel]
  | scalar type =>
    cases type with
    -- All other types are written whatever the number is.
    | label kind => simpa [encodeElement, isLabel] using Arg.exists_labelBytes_iff
    | byte | word | dword | float | string | pointer | any => simp [encodeElement, isLabel]

/-- A single argument is written unless it is refused. -/
theorem exists_encodeScalar_iff (single : param.variadic = false) {arg : Arg} :
    (∃ bytes, param.encodeScalar width mnemonic index arg = .ok bytes) ↔ ¬param.Refuses [arg] := by
  obtain ⟨item, variadic, access⟩ := param
  obtain rfl : variadic = false := single
  cases item with
  | register => simp [encodeScalar, Refuses, isLabel]
  | tuple elements => simp [encodeScalar, Refuses, isLabel]
  | scalar type =>
    cases type with
    | label kind =>
      have written := @Arg.exists_labelBytes_iff arg
      simpa [encodeScalar, Refuses, isLabel] using written
    -- These have no spelling in bytes, whatever the argument is.
    | pointer | any => simp [encodeScalar, Refuses, isLabel]
    | byte | word | dword | float | string => simp [encodeScalar, Refuses, isLabel]

/-- The arguments of a parameter are written unless they are refused. -/
theorem exists_encode_iff {args : List Arg}
    (shape : param.variadic = false → ∃ arg, args = [arg]) :
    (∃ bytes, param.encode width mnemonic index args = .ok bytes) ↔ ¬param.Refuses args := by
  cases variadic : param.variadic with
  | false =>
    obtain ⟨arg, rfl⟩ := shape variadic
    rw [← @exists_encodeScalar_iff width mnemonic index param variadic arg]
    simp [encode, variadic]
  | true =>
    -- The items are written one by one, after their count.
    have items : (∃ bytes, param.encode width mnemonic index args = .ok bytes) ↔
        ∃ pieces, args.mapM param.encodeElement = .ok pieces := by
      simp only [encode, variadic, if_true]
      exact exists_bind_pure_eq_ok_iff
    rw [items, exists_mapM_eq_ok_iff]
    simp only [exists_encodeElement_iff, Refuses, variadic]
    grind

end Param

/-- A parameter that is not variadic has no more than one argument. -/
theorem length_of_mem_operandsOf {params : List Param} {args : List Arg}
    {operand : Param × List Arg} (listed : operand ∈ operandsOf params args)
    (single : operand.1.variadic = false) : operand.2.length ≤ 1 := by
  induction params generalizing args with
  | nil => cases listed
  | cons param params ih =>
    -- The parameter is the first one, which takes an argument only if there is one.
    rcases List.mem_cons.mp listed with rfl | behind
    · simp only at single
      simp [single]
    · exact ih behind

/-- Arguments are written if those of each parameter are. -/
theorem exists_encodeOperands_iff {width : CharWidth} {mnemonic : String} {index : Nat}
    {operands : List (Param × List Arg)}
    (shape : ∀ operand ∈ operands, operand.1.variadic = false → ∃ arg, operand.2 = [arg]) :
    (∃ bytes, encodeOperands width mnemonic index operands = .ok bytes) ↔
      ∀ operand ∈ operands, ¬operand.1.Refuses operand.2 := by
  induction operands generalizing index with
  | nil => simp [encodeOperands]
  | cons operand rest ih =>
    obtain ⟨here, others⟩ := List.forall_mem_cons.mp shape
    -- What is written for the first parameter stands in front of what is written for the others.
    have parts : (∃ bytes, encodeOperands width mnemonic index (operand :: rest) = .ok bytes) ↔
        (∃ first, operand.1.encode width mnemonic index operand.2 = .ok first) ∧
          ∃ bytes, encodeOperands width mnemonic (index + 1) rest = .ok bytes := by
      constructor
      · intro ⟨bytes, written⟩
        obtain ⟨first, front, back⟩ := except_bind_eq_ok written
        obtain ⟨more, behind, -⟩ := except_bind_eq_ok back
        exact ⟨⟨first, front⟩, more, behind⟩
      · intro ⟨⟨first, front⟩, more, behind⟩
        exact ⟨first ++ more, by rw [encodeOperands, front, behind]; rfl⟩
    rw [parts, Param.exists_encode_iff here, ih others, List.forall_mem_cons]

namespace Instruction

variable {width : CharWidth} {instruction : Instruction}

/-- An instruction that has an argument for every parameter that is not variadic, unless its
arguments come from the stack. -/
def Supplied (instruction : Instruction) : Prop :=
  instruction.opcode.pops = false → ∀ operand ∈ instruction.operands,
    operand.1.variadic = false → operand.2 ≠ []

instance (instruction : Instruction) : Decidable instruction.Supplied :=
  inferInstanceAs (Decidable (_ → _))

/-- An instruction that stores arguments of which some cannot be written. -/
def Unwritable (instruction : Instruction) : Prop :=
  instruction.opcode.pops = false ∧
    ∃ operand ∈ instruction.operands, operand.1.Refuses operand.2

/-- With all arguments there, an instruction is written unless one of them cannot be. -/
theorem exists_encode_iff (supplied : instruction.Supplied) :
    (∃ bytes, instruction.encode width = .ok bytes) ↔ ¬instruction.Unwritable := by
  cases pops : instruction.opcode.pops with
  | true => simp [encode, Unwritable, pops]
  | false =>
    have shape : ∀ operand ∈ instruction.operands, operand.1.variadic = false →
        ∃ arg, operand.2 = [arg] := by
      intro operand listed single
      have some := List.length_pos_iff.mpr (supplied pops operand listed single)
      have most := length_of_mem_operandsOf listed single
      exact List.length_eq_one_iff.mp (by omega)
    -- The code itself can always be written.
    have stored : (∃ bytes, instruction.encode width = .ok bytes) ↔
        ∃ bytes, encodeOperands width instruction.opcode.mnemonic 0 instruction.operands =
          .ok bytes := by
      simp only [encode, pops, Bool.false_eq_true, if_false]
      exact exists_bind_pure_eq_ok_iff
    rw [stored, exists_encodeOperands_iff shape]
    simp [Unwritable, pops]

/-- Nothing is counted for a missing argument if there is none. -/
theorem Supplied.omitted_eq_zero (supplied : instruction.Supplied) :
    instruction.omitted width = 0 := by
  unfold omitted
  split
  · rfl
  · rename_i stores
    -- Only a parameter without an argument is counted, and there is none.
    rw [operandsOmitted, List.sum_eq_zero_iff_forall_eq_nat]
    intro count listed
    obtain ⟨operand, inside, rfl⟩ := List.mem_map.mp listed
    have filled := supplied (by simpa using stores) operand inside
    cases variadic : operand.1.variadic with
    | true => simp [Param.omitted, variadic]
    | false => simp [Param.omitted, filled variadic]

/-- With all arguments there, an instruction is written in the bytes of its size. -/
theorem length_of_supplied {bytes : List UInt8} (supplied : instruction.Supplied)
    (written : instruction.encode width = .ok bytes) :
    bytes.length = instruction.size width := by
  rw [← encode_length written, supplied.omitted_eq_zero, Nat.add_zero]

end Instruction

/-- A segment is written if each of its instructions is. -/
theorem Segment.exists_encode_iff {width : CharWidth} {segment : Segment} :
    (∃ bytes, segment.encode width = .ok bytes) ↔
      ∀ instruction ∈ segment.instructions, ∃ bytes, instruction.encode width = .ok bytes := by
  obtain ⟨labels, content⟩ := segment
  cases content with
  | data bytes => simp [encode, instructions]
  | text value stored => simp [encode, instructions]
  | code instructions =>
    -- Code is written instruction by instruction, and all else as it is.
    exact exists_bind_pure_eq_ok_iff.trans exists_mapM_eq_ok_iff

/-- With all arguments there, a segment is written in the bytes of its size. -/
theorem Segment.length_of_supplied {width : CharWidth} {segment : Segment} {bytes : List UInt8}
    (supplied : ∀ instruction ∈ segment.instructions, instruction.Supplied)
    (written : segment.encode width = .ok bytes) : bytes.length = segment.size width := by
  -- No argument is missing that would be counted and not written.
  have complete : (segment.instructions.map (·.omitted width)).sum = 0 := by
    rw [List.sum_eq_zero_iff_forall_eq_nat]
    intro count listed
    obtain ⟨instruction, inside, rfl⟩ := List.mem_map.mp listed
    exact (supplied instruction inside).omitted_eq_zero
  rw [← Segment.encode_length written, complete, Nat.add_zero]

section Pieces

variable {pieces : List (List UInt8)} {piece : List UInt8} {index : Nat}

/-- Every part has a start. -/
theorem length_startsFrom (start : Nat) (sizes : List Nat) :
    (startsFrom start sizes).length = sizes.length := by
  induction sizes generalizing start with
  | nil => rfl
  | cons size sizes ih => rw [startsFrom, List.length_cons, List.length_cons, ih]

/-- A part starts behind all parts before it. -/
theorem getElem?_startsFrom (start : Nat) (found : pieces[index]? = some piece) :
    (startsFrom start (pieces.map List.length))[index]? =
      some (start + (pieces.take index).flatten.length) := by
  induction pieces generalizing start index with
  | nil => cases found
  | cons first rest ih =>
    -- The first part is passed, and the next one starts behind it.
    rw [List.map_cons, startsFrom]
    cases index with
    | zero => simp
    | succ index =>
      rw [List.getElem?_cons_succ, ih _ found, List.take_succ_cons, List.flatten_cons,
        List.length_append, Nat.add_assoc]

/-- A part stands between those before it and those behind it. -/
theorem slice_flatten (found : pieces[index]? = some piece) :
    (pieces.take index).flatten.length + piece.length ≤ pieces.flatten.length ∧
      (pieces.flatten.take ((pieces.take index).flatten.length + piece.length)).drop
        (pieces.take index).flatten.length = piece := by
  obtain ⟨inside, here⟩ := List.getElem?_eq_some_iff.mp found
  -- All parts are those before this one, this one, and those behind it.
  have split : pieces.flatten =
      (pieces.take index).flatten ++ (piece ++ (pieces.drop (index + 1)).flatten) := by
    rw [← List.flatten_cons, ← List.flatten_append, ← here, ← List.drop_eq_getElem_cons inside,
      List.take_append_drop]
  rw [split]
  refine ⟨by simp only [List.length_append]; omega, ?_⟩
  rw [List.take_length_add_append, List.take_left, List.drop_left]

end Pieces

namespace Script

variable {width : CharWidth} {script : Script}

/-- All labels that a script carries. -/
def carried (script : Script) : List Label := script.segments.flatMap (·.labels)

/-- The last segment that carries a label, by its number. -/
structure CarriesLast (script : Script) (index : Nat) (label : Label) : Prop where
  here : ∃ segment, script.segments[index]? = some segment ∧ label ∈ segment.labels
  last : ∀ (later : Nat) (segment : Segment), index < later →
    script.segments[later]? = some segment → label ∉ segment.labels

/-- A script in its written form: the bytes of each segment at its offset, and the label table. -/
structure LaidOut (width : CharWidth) (script : Script) (encoded : EncodedScript) : Prop where
  /-- There are as many bytes as the script has. -/
  size : encoded.bytes.length = script.size width
  /-- The bytes from a segment's offset on, as many as it has, are those that it is written as. -/
  placed : ∀ (index : Nat) (segment : Segment), script.segments[index]? = some segment →
    ∃ offset, (script.offsets width)[index]? = some offset ∧
      offset + segment.size width ≤ encoded.bytes.length ∧
      segment.encode width =
        .ok ((encoded.bytes.take (offset + segment.size width)).drop offset)
  /-- The table ends with the greatest label, and is empty without labels. -/
  count : encoded.labels.length = script.carried.max?.elim 0 (· + 1)
  /-- A label has the offset of the last segment that carries it. -/
  labelled : ∀ label index offset, script.CarriesLast index label →
    (script.offsets width)[index]? = some offset → encoded.labels[label]? = some (.ofNat offset)
  /-- A label within the table that no segment carries has none. -/
  free : ∀ label < encoded.labels.length, label ∉ script.carried →
    encoded.labels[label]? = some noOffset

/-- The labels of each segment with its offset, of which the label table is made. -/
def labelPlaces (width : CharWidth) (script : Script) : List (LabelSet × Nat) :=
  (script.segments.map (·.labels)).zip (script.offsets width)

/-- An entry has the labels of a segment and its offset. -/
theorem getElem?_labelPlaces {index : Nat} {entry : LabelSet × Nat} :
    (script.labelPlaces width)[index]? = some entry ↔
      ∃ segment, script.segments[index]? = some segment ∧ segment.labels = entry.1 ∧
        (script.offsets width)[index]? = some entry.2 := by
  -- Labels and offsets are paired segment by segment.
  rw [labelPlaces, List.getElem?_zip_eq_some, List.getElem?_map, Option.map_eq_some_iff]
  simp only [and_assoc, ← exists_and_right]

/-- The labels of all entries are those that the script carries. -/
theorem flatMap_labelPlaces : (script.labelPlaces width).flatMap (·.1) = script.carried := by
  -- Every segment has an offset, so none is left out when they are paired.
  have fits : (script.segments.map (·.labels)).length ≤ (script.offsets width).length := by
    rw [offsets, length_startsFrom, List.length_map, List.length_map]
  rw [List.flatMap_def, labelPlaces, List.map_fst_zip fits, carried, List.flatMap_def]

/-- With all arguments there, segments are written in the bytes of their sizes. -/
theorem map_length_of_mapM {segments : List Segment} {pieces : List (List UInt8)}
    (supplied : ∀ segment ∈ segments, ∀ instruction ∈ segment.instructions, instruction.Supplied)
    (wrote : segments.mapM (·.encode width) = .ok pieces) :
    pieces.map List.length = segments.map (·.size width) := by
  refine map_eq_of_mapM (fun segment listed bytes written => ?_) wrote
  exact Segment.length_of_supplied (supplied segment listed) written

/-- A script is written if each of its instructions is. -/
theorem exists_encode_iff :
    (∃ encoded, script.encode width = .ok encoded) ↔
      ∀ instruction ∈ script.instructions, ∃ bytes, instruction.encode width = .ok bytes := by
  -- The label table is made without failing, so that only the segments matter.
  have segments : (∃ encoded, script.encode width = .ok encoded) ↔
      ∃ pieces, script.segments.mapM (·.encode width) = .ok pieces :=
    exists_bind_pure_eq_ok_iff
  rw [segments, exists_mapM_eq_ok_iff]
  simp only [Segment.exists_encode_iff, instructions, List.mem_flatMap, forall_exists_index,
    and_imp]
  exact ⟨fun each instruction segment listed inside => each segment listed instruction inside,
    fun each segment listed instruction inside => each instruction segment listed inside⟩

/-- With all arguments there, a script is written piece by piece at the offsets of its segments. -/
theorem pieces_of_encode {encoded : EncodedScript}
    (supplied : ∀ segment ∈ script.segments, ∀ instruction ∈ segment.instructions,
      instruction.Supplied)
    (written : script.encode width = .ok encoded) :
    ∃ pieces, script.segments.mapM (·.encode width) = .ok pieces ∧
      pieces.map List.length = script.segments.map (·.size width) ∧
      encoded = ⟨pieces.flatten, labelTable (script.labelPlaces width)⟩ := by
  obtain ⟨pieces, wrote, made⟩ := except_bind_eq_ok written
  -- The pieces are as long as the segments, which makes their offsets the same.
  have sizes := map_length_of_mapM supplied wrote
  refine ⟨pieces, wrote, sizes, ?_⟩
  cases made
  rw [sizes]
  rfl

/-- A script that is written with all arguments there is laid out by the sizes of its segments. -/
theorem laidOut_of_encode {encoded : EncodedScript}
    (supplied : ∀ instruction ∈ script.instructions, instruction.Supplied)
    (written : script.encode width = .ok encoded) : script.LaidOut width encoded := by
  have complete : ∀ segment ∈ script.segments, ∀ instruction ∈ segment.instructions,
      instruction.Supplied := by
    intro segment listed instruction inside
    exact supplied instruction (List.mem_flatMap.mpr ⟨segment, listed, inside⟩)
  obtain ⟨pieces, wrote, sizes, rfl⟩ := pieces_of_encode complete written
  constructor
  · rw [size, ← sizes, ← List.sum_eq_foldr, List.length_flatten]
  · -- Each segment is written at its offset, which is where its piece starts.
    intro index segment found
    obtain ⟨piece, there, wrotePiece⟩ := (getElem?_mapM wrote).2 index segment found
    have length := Segment.length_of_supplied (complete segment (List.mem_of_getElem? found))
      wrotePiece
    have offset := getElem?_startsFrom 0 there
    rw [sizes, Nat.zero_add] at offset
    obtain ⟨inside, slice⟩ := slice_flatten there
    refine ⟨_, offset, ?_, ?_⟩
    · rw [← length]
      exact inside
    · rw [← length, slice, wrotePiece]
  · rw [labelTable, List.length_map, List.length_range, foldl_max_eq, flatMap_labelPlaces]
  · -- The last segment that carries a label decides about its place.
    intro label index offset carries placed
    obtain ⟨segment, found, carried⟩ := carries.here
    have entry : (script.labelPlaces width)[index]? = some (segment.labels, offset) :=
      getElem?_labelPlaces.mpr ⟨segment, found, rfl, placed⟩
    rw [getElem?_labelTable_of_lt (lt_length_labelTable (List.mem_of_getElem? entry) carried),
      placedAt_last entry carried]
    -- What stands behind it in the table belongs to a later segment.
    intro later other behind there
    obtain ⟨next, follows, same, -⟩ := getElem?_labelPlaces.mp there
    rw [← same]
    exact carries.last later next behind follows
  · -- A label that no segment carries has no place.
    intro label inside free
    rw [getElem?_labelTable_of_lt inside, placedAt_of_not_mem]
    intro entry listed carried
    have among := List.mem_flatMap.mpr ⟨entry, listed, carried⟩
    exact free (flatMap_labelPlaces ▸ among)

/-- With all arguments there, a script cannot be written exactly if an instruction cannot. -/
theorem exists_error_iff (supplied : ∀ instruction ∈ script.instructions, instruction.Supplied) :
    (∃ failure, script.encode width = .error failure) ↔
      ∃ instruction ∈ script.instructions, instruction.Unwritable := by
  rw [exists_eq_error_iff, exists_encode_iff]
  constructor
  · intro some
    -- If all instructions can be written, the script can.
    by_contra none
    refine some fun instruction listed => ?_
    exact (Instruction.exists_encode_iff (supplied instruction listed)).mpr fun unwritable =>
      none ⟨instruction, listed, unwritable⟩
  · intro ⟨instruction, listed, unwritable⟩ all
    -- An instruction that cannot be written would have been.
    exact (Instruction.exists_encode_iff (supplied instruction listed)).mp (all instruction listed)
      unwritable

/-- A script with an argument for every parameter that needs one is written in the bytes of its
size, each segment at its offset, with a table that has the last place of every label. It cannot be
written exactly if an instruction stores a label that is no word or a value of a type that has no
spelling. -/
theorem encode_layout (width : CharWidth) (script : Script)
    (supplied : ∀ instruction ∈ script.instructions, instruction.Supplied) :
    (∀ encoded, script.encode width = .ok encoded → script.LaidOut width encoded) ∧
      ((∃ failure, script.encode width = .error failure) ↔
        ∃ instruction ∈ script.instructions, instruction.Unwritable) :=
  ⟨fun _ written => laidOut_of_encode supplied written, exists_error_iff supplied⟩

/-- A jump and a text that was given as a number, then data with one of the labels of the code, and
at last a text that is cut short. -/
def jumpingTo (target : Int32) : Script :=
  ⟨[⟨[0, 2], .code
      [{ opcode := OpcodeTable.standard.get Code.jmp, args := [.int target] },
        { opcode := OpcodeTable.standard.get Code.argPushs, args := [.int 7] }]⟩,
    ⟨[2], .data [0x01, 0x02, 0x03]⟩,
    ⟨[], .text "abc" (some 4)⟩]⟩

/-- The label that two segments carry has the place of the second of them, and a jump to a label
that is no word cannot be written. -/
theorem encode_layout_jumpingTo :
    (jumpingTo 2).LaidOut .wide
        ⟨[0x28, 0x02, 0x00, 0x4E, 0x37, 0x00, 0x00, 0x00, 0x01, 0x02, 0x03, 0x61, 0x00, 0x62, 0x00],
          [0, noOffset, 8]⟩ ∧
      ∃ failure, (jumpingTo 65536).encode .wide = .error failure := by
  -- Both scripts have all arguments, and the second one a label beyond the words.
  have near := encode_layout .wide (jumpingTo 2) (by decide)
  have far := encode_layout .wide (jumpingTo 65536) (by decide)
  refine ⟨near.1 _ (by decide), far.2.mpr ?_⟩
  exact ⟨{ opcode := OpcodeTable.standard.get Code.jmp, args := [.int 65536] }, by decide,
    by decide, _, List.mem_cons_self, .inl ⟨by decide, .int 65536, List.mem_cons_self, by decide⟩⟩

end Script

end QuestScript
