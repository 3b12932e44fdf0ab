import QuestScript.Proofs.Discovery.Decoding
import QuestScript.Proofs.Parse.Faithful
import QuestScript.Proofs.Parse.Labels
import QuestScript.Proofs.Script.Layout

/-! How many bytes the script of a parse is written in.

A strict parse has read every argument, and writes as many bytes as it was given. A lenient one keeps
opcodes without their arguments: these count as if they were there, but nothing is written for them. -/

namespace QuestScript

namespace Instruction

/-- An instruction that can be written, and that lacks no argument if it was decoded. -/
def Spellable (width : CharWidth) (instruction : Instruction) : Prop :=
  (∃ bytes, instruction.encode width = .ok bytes) ∧
    (instruction.valid = true → instruction.omitted width = 0)

variable {width : CharWidth} {table : OpcodeTable}

/-- An instruction that was decoded can be written with all of its arguments. -/
theorem spellable_of_decode (last : table.VariadicLast) {reader next : Reader}
    {instruction : Instruction}
    (read : decodeInstruction table width reader = .ok instruction next) :
    instruction.Spellable width := by
  obtain ⟨bytes, written, encoded, size, -⟩ := spelled_of_decodeInstruction last read
  refine ⟨⟨written, encoded⟩, fun _ => ?_⟩
  -- It is written in as many bytes as its size says, which leaves none for missing arguments.
  have total := encode_length encoded
  omega

/-- Nothing stands for the missing arguments of any parameter but a count of none. -/
theorem exists_encodeOperands_nil (width : CharWidth) (mnemonic : String) (index : Nat)
    (params : List Param) :
    ∃ bytes, encodeOperands width mnemonic index (operandsOf params []) = .ok bytes := by
  induction params generalizing index with
  | nil => exact ⟨[], rfl⟩
  | cons param params ih =>
    obtain ⟨others, encoded⟩ := ih (index + 1)
    -- A variadic parameter is written as a count, and any other one not at all.
    obtain ⟨first, front⟩ : ∃ first, param.encode width mnemonic index [] = .ok first := by
      by_cases variadic : param.variadic = true
      · exact ⟨[0], by simp only [Param.encode, variadic, if_true]; rfl⟩
      · exact ⟨[], by simp only [Param.encode, variadic, Bool.false_eq_true, if_false]⟩
    refine ⟨first ++ others, ?_⟩
    simp only [operandsOf, List.take_nil, List.drop_nil, ite_self, encodeOperands, front, encoded]
    rfl

/-- An opcode without arguments can be written. -/
theorem spellable_undecoded (opcode : Opcode) : (undecoded opcode).Spellable width := by
  -- It is not valid, so only that it is written is left to show.
  refine ⟨?_, fun valid => Bool.noConfusion valid⟩
  by_cases pops : opcode.pops = true
  · exact ⟨opcode.codeBytes, by simp only [encode, undecoded, pops, if_true]⟩
  · -- The arguments that it lacks are not written either.
    obtain ⟨stored, encoded⟩ := exists_encodeOperands_nil width opcode.mnemonic 0 opcode.params
    refine ⟨opcode.codeBytes ++ stored, ?_⟩
    simp only [encode, undecoded, operands, pops, encoded, Bool.false_eq_true, if_false]
    rfl

end Instruction

/-- All instructions that were decoded one after the other can be written. -/
theorem Decodes.spellable {table : OpcodeTable} {width : CharWidth} (last : table.VariadicLast)
    {reader next : Reader} {instructions : List Instruction}
    (run : Decodes table width reader instructions next) :
    ∀ instruction ∈ instructions, instruction.Spellable width := by
  induction run with
  | nil reader =>
    intro instruction listed
    cases listed
  | cons read others ih =>
    -- Each one was decoded, and so can be written.
    exact List.forall_mem_cons.mpr ⟨Instruction.spellable_of_decode last read, ih⟩

namespace Source

variable {source : Source} {offset : Nat}

/-- All instructions of a segment that was read can be written, also if it was read leniently. -/
theorem ReadsCode.spellable (last : source.opcodes.VariadicLast) {stop : Nat} {reader : Reader}
    {instructions : List Instruction} (read : source.ReadsCode stop reader instructions) :
    ∀ instruction ∈ instructions, instruction.Spellable source.options.width := by
  -- Each instruction was decoded, or is an opcode without arguments.
  induction read with
  | done reached =>
    intro instruction listed
    cases listed
  | decoded before read rest ih =>
    exact List.forall_mem_cons.mpr ⟨Instruction.spellable_of_decode last read, ih⟩
  | undecoded before lenient read rest ih =>
    exact List.forall_mem_cons.mpr ⟨Instruction.spellable_undecoded _, ih⟩
  | cutOff before lenient read =>
    intro instruction listed
    cases listed

/-- All instructions that were discovered can be written. -/
theorem Describes.spellable {segment : Segment} (described : source.Describes offset segment)
    (last : source.opcodes.VariadicLast) :
    ∀ instruction ∈ segment.instructions, instruction.Spellable source.options.width := by
  obtain ⟨labels, content⟩ := segment
  cases content with
  -- The instructions of code were read one after the other.
  | code instructions =>
    obtain ⟨journal, run⟩ := described.reads
    exact (readsCode_of_decodeSegment (Nat.le_of_lt described.inside) run).spellable last
  -- There are none in data and in texts.
  | data bytes =>
    intro instruction listed
    cases listed
  | text value stored =>
    intro instruction listed
    cases listed

/-- All instructions that fill a gap can be written. -/
theorem spellable_gapSegment (last : source.opcodes.VariadicLast) (offset : Nat) :
    ∀ instruction ∈ (source.gapSegment offset).instructions,
      instruction.Spellable source.options.width := by
  unfold gapSegment
  dsimp only
  split
  · rename_i instructions found
    obtain ⟨run, -⟩ := classifyGap_eq_ok found
    -- A gap is only filled with code that decodes without a failure.
    obtain ⟨next, decoded, -⟩ := decodes_of_decodeAllSteps (Nat.le_refl _) run
    exact decoded.spellable last
  · intro instruction listed
    cases listed

/-- All instructions of a tiling can be written. -/
theorem Tiled.spellable {state : Discovery} {tiles : List Tile} {start : Nat}
    (tiled : source.Tiled state.segments start tiles) (last : source.opcodes.VariadicLast)
    (sound : state.Sound source) :
    ∀ tile ∈ tiles, ∀ instruction ∈ tile.segment.instructions,
      instruction.Spellable source.options.width := by
  intro tile listed
  have here := (tiled.of_mem listed).1
  -- A segment was discovered, or fills a gap.
  rcases tileAt_cases source state.segments tile.offset with ⟨segment, found, made, -⟩ | made
  · rw [made] at here
    rw [congrArg Tile.segment here]
    exact (sound tile.offset segment found).spellable last
  · rw [made] at here
    rw [congrArg Tile.segment here]
    exact spellable_gapSegment last tile.offset

/-- The script of a tiling is as long as its tiles. -/
theorem labelled_size (tiles : List Tile) (width : CharWidth) :
    (source.labelled tiles).size width = (tiles.map (·.segment.size width)).sum := by
  -- Labels do not add to the size of a segment.
  rw [labelled, Script.size, List.map_map]
  rfl

/-- The instructions of a tiling's script are those of its tiles. -/
theorem mem_instructions_labelled {tiles : List Tile} {instruction : Instruction} :
    instruction ∈ (source.labelled tiles).instructions ↔
      ∃ tile ∈ tiles, instruction ∈ tile.segment.instructions := by
  -- Labels are added to the segments, whose instructions stay the same.
  simp only [Script.instructions, labelled, List.mem_flatMap, List.mem_map]
  constructor
  · rintro ⟨segment, ⟨tile, listed, rfl⟩, inside⟩
    exact ⟨tile, listed, inside⟩
  · rintro ⟨tile, listed, inside⟩
    exact ⟨_, ⟨tile, listed, rfl⟩, inside⟩

end Source

/-- A script whose instructions can be written can be. -/
theorem Script.exists_encode {width : CharWidth} {script : Script}
    (spellable : ∀ instruction ∈ script.instructions, instruction.Spellable width) :
    ∃ encoded, script.encode width = .ok encoded :=
  exists_encode_iff.mpr fun instruction listed => (spellable instruction listed).1

/-- A parse without errors ends where the script does, also a lenient one. -/
theorem Source.sum_eq_of_no_error {state : Discovery} {source : Source} {script : Script}
    {problems : List Problem} (made : (source.assemble state).1 = ⟨some script, problems⟩)
    (clean : ∀ problem ∈ problems, problem.severity ≠ .error) :
    ((source.tiles state.segments).map (·.segment.size source.options.width)).sum =
      source.bytes.length := by
  obtain ⟨-, rfl, -⟩ := assemble_eq_some made
  -- Another size would be the last of the problems, and an error.
  refine Classical.byContradiction fun other => ?_
  have listed : ∀ problem ∈ sizeProblem source.bytes.length
      ((source.tiles state.segments).map (·.segment.size source.options.width)).sum,
        problem.severity ≠ .error := by
    intro problem found
    exact clean problem (List.mem_append_right _ (List.mem_append_right _ found))
  rw [sizeProblem, if_neg other] at listed
  exact listed _ List.mem_cons_self rfl

/-- What a strict parse reads is a tiling of its input.

No segment is empty, and together they are as long as the input. They can be written, in as many bytes
as the input has, and every label that a segment carries keeps the word that the label table had for
it. -/
theorem encode_tiling_of_strict_parse {config : Config} {opcodes : OpcodeTable}
    (described : config.opcodeTable = .ok opcodes) {bytes : List UInt8} {labels : LabelTable}
    {entries : List Label} {options : ParseOptions} (strict : options.lenient = false)
    {script : Script} {problems : List Problem}
    (parsed : (parse bytes labels entries opcodes options).1 = .ok ⟨some script, problems⟩) :
    (∀ segment ∈ script.segments, 0 < segment.size options.width) ∧
      script.size options.width = bytes.length ∧
      ∃ encoded, script.encode options.width = .ok encoded ∧
        encoded.bytes.length = bytes.length ∧
        ∀ segment ∈ script.segments, ∀ label ∈ segment.labels,
          ∃ word, labels[label]? = some word ∧ encoded.labels[label]? = some word := by
  obtain ⟨passes, state, run, made⟩ := parse_eq_ok.mp parsed
  generalize known : (⟨bytes, .ofTable labels, opcodes, options⟩ : Source) = source at run made
  obtain rfl : source.bytes = bytes := by rw [← known]
  obtain rfl : source.options = options := by rw [← known]
  have indexed : source.index = .ofTable labels := by rw [← known]
  have last : source.opcodes.VariadicLast := by
    rw [← known]
    exact Config.opcodeTable_variadicLast described
  have sound := sound_of_runDiscovery run
  obtain ⟨rfl, -, total⟩ := Source.assemble_eq_some made
  have tiled := source.tiled_tiles state.segments
  have total := total strict
  generalize source.tiles state.segments = tiles at tiled total
  refine ⟨?_, ?_, ?_⟩
  · intro segment listed
    obtain ⟨tile, found, rfl⟩ := List.mem_map.mp listed
    obtain ⟨here, -, inside⟩ := tiled.of_mem found
    -- Labels make no difference to the size of a tile, and no tile is empty.
    have positive := Source.tileAt_size_pos state.segments inside
    rw [← here] at positive
    exact positive
  · rw [Source.labelled_size, total]
  · obtain ⟨encoded, wrote, size, table, -⟩ := tiled.encode_labelled strict last sound total
    refine ⟨encoded, wrote, size, ?_⟩
    intro segment listed label carried
    obtain ⟨tile, found, rfl⟩ := List.mem_map.mp listed
    -- A tile carries a label exactly if the table puts the label at its offset.
    have named : ∀ tile ∈ tiles, label ∈ (tile.segment.addLabels
        (source.index.labelsAt tile.offset)).labels ↔ labels.offset? label = some tile.offset := by
      intro tile found
      rw [← Source.mem_labels_tileAt indexed sound, ← (tiled.of_mem found).1]
    have given := (named tile found).mp carried
    obtain ⟨word, there, -, offset⟩ := LabelTable.offset?_eq_some.mp given
    refine ⟨word, there, ?_⟩
    rw [table, ← UInt32.ofNat_toNat (x := word), offset, Source.labelled, List.map_map,
      List.zip_map']
    refine getElem?_labelTable ⟨_, List.mem_map.mpr ⟨tile, found, rfl⟩, carried⟩ ?_
    -- All tiles that carry the label are at its one offset.
    intro entry inside also
    obtain ⟨other, otherFound, rfl⟩ := List.mem_map.mp inside
    exact Option.some.inj (((named other otherFound).mp also).symm.trans given)

/-- The code and the text tile their bytes, and keep the words of both labels. -/
theorem encode_tiling_talkBytes :
    Config.opcodeTable {} = .ok .standard ∧
      (parse talkBytes [0, 7] [0] .standard { width := .narrow }).1 = .ok ⟨some talkScript, []⟩ ∧
      (∀ segment ∈ talkScript.segments, 0 < segment.size .narrow) ∧
      talkScript.size .narrow = talkBytes.length ∧
      ∃ encoded, talkScript.encode .narrow = .ok encoded ∧
        encoded.bytes.length = talkBytes.length ∧
        ∀ segment ∈ talkScript.segments, ∀ label ∈ segment.labels,
          ∃ word, ([0, 7] : LabelTable)[label]? = some word ∧ encoded.labels[label]? = some word :=
  -- The opcodes are those of a configuration that adds none, and the parse is strict and has no
  -- problems.
  ⟨rfl, parse_talkBytes,
    @encode_tiling_of_strict_parse {} .standard rfl talkBytes [0, 7] [0] { width := .narrow } rfl
      talkScript [] parse_talkBytes⟩

/-- What a parse without errors writes, strict or lenient.

Its script can always be written. The bytes that are written, and those that are counted for missing
arguments, are together as many as the input has. So all bytes of the input are accounted for exactly
if no opcode that was kept without its arguments has parameters that are counted. -/
theorem encode_length_iff_of_parse {config : Config} {opcodes : OpcodeTable}
    (described : config.opcodeTable = .ok opcodes) {bytes : List UInt8} {labels : LabelTable}
    {entries : List Label} {options : ParseOptions} {script : Script} {problems : List Problem}
    (parsed : (parse bytes labels entries opcodes options).1 = .ok ⟨some script, problems⟩)
    (clean : ∀ problem ∈ problems, problem.severity ≠ .error) :
    ∃ encoded, script.encode options.width = .ok encoded ∧
      encoded.bytes.length + script.omitted options.width = bytes.length ∧
      (encoded.bytes.length = bytes.length ↔
        ∀ instruction ∈ script.instructions, instruction.valid = false →
          instruction.omitted options.width = 0) := by
  obtain ⟨passes, state, run, made⟩ := parse_eq_ok.mp parsed
  generalize known : (⟨bytes, .ofTable labels, opcodes, options⟩ : Source) = source at run made
  obtain rfl : source.bytes = bytes := by rw [← known]
  obtain rfl : source.options = options := by rw [← known]
  have last : source.opcodes.VariadicLast := by
    rw [← known]
    exact Config.opcodeTable_variadicLast described
  have total := Source.sum_eq_of_no_error made clean
  obtain ⟨rfl, -, -⟩ := Source.assemble_eq_some made
  have tiled := source.tiled_tiles state.segments
  generalize source.tiles state.segments = tiles at tiled total
  -- All instructions of the script can be written, decoded or not.
  have spellable : ∀ instruction ∈ (source.labelled tiles).instructions,
      instruction.Spellable source.options.width := by
    intro instruction listed
    obtain ⟨tile, found, inside⟩ := Source.mem_instructions_labelled.mp listed
    exact tiled.spellable last (sound_of_runDiscovery run) tile found instruction inside
  obtain ⟨encoded, wrote⟩ := Script.exists_encode spellable
  have length := Script.encode_length wrote
  rw [Source.labelled_size, total] at length
  refine ⟨encoded, wrote, length, ?_⟩
  -- The input is as long as what is written exactly if nothing is missing.
  have whole : encoded.bytes.length = source.bytes.length ↔
      (source.labelled tiles).omitted source.options.width = 0 := by omega
  rw [whole, Script.omitted_eq_zero_iff]
  constructor
  · intro none instruction listed _
    exact none instruction listed
  · intro none instruction listed
    -- What was decoded lacks nothing, so that only the other instructions count.
    cases valid : instruction.valid with
    | false => exact none instruction listed valid
    | true => exact (spellable instruction listed).2 valid

/-- A string argument that is half of a character, at the end of a script. -/
def surrogateBytes : List UInt8 := [0x4E, 0x00, 0xD8]

/-- What a lenient parse reads from the string argument. -/
def surrogateScript : Script :=
  ⟨[⟨[0], .code [.undecoded (OpcodeTable.standard.get Code.argPushs)]⟩]⟩

/-- The string argument is read without a problem, as an opcode without its argument. -/
theorem parse_surrogateBytes :
    (parse surrogateBytes [0] [0] .standard { lenient := true }).1 =
      .ok ⟨some surrogateScript, []⟩ := by
  -- The one label is sorted first; all else is computed as it stands.
  have index : LabelIndex.ofTable [0] = .ofPlaces [⟨0, 0⟩] := by cbv
  rw [parse, index]
  rfl

/-- Of the three bytes only one is written, since the other two are counted for the argument. -/
theorem encode_length_surrogateBytes :
    Config.opcodeTable {} = .ok .standard ∧
      (parse surrogateBytes [0] [0] .standard { lenient := true }).1 =
        .ok ⟨some surrogateScript, []⟩ ∧
      surrogateScript.encode .wide = .ok ⟨[0x4E], [0]⟩ ∧
      surrogateScript.omitted .wide = 2 ∧
      ∃ encoded, surrogateScript.encode .wide = .ok encoded ∧
        encoded.bytes.length + surrogateScript.omitted .wide = surrogateBytes.length ∧
        (encoded.bytes.length = surrogateBytes.length ↔
          ∀ instruction ∈ surrogateScript.instructions, instruction.valid = false →
            instruction.omitted .wide = 0) :=
  -- The terminator is counted for the argument that is missing, and not written.
  ⟨rfl, parse_surrogateBytes, by cbv, by cbv,
    @encode_length_iff_of_parse {} .standard rfl surrogateBytes [0] [0] { lenient := true }
      surrogateScript [] parse_surrogateBytes (by simp)⟩

end QuestScript
