import QuestScript.Proofs.Instruction.Code
import QuestScript.Proofs.Parse.Tiling
import QuestScript.Proofs.Text.Field
import QuestScript.Script.Encode

/-! What the segments of a strict parse are written as, compared with the bytes they stand for. -/

namespace QuestScript

/-- A byte of a range is the byte of the data at that place. -/
theorem getElem?_range {data part : List UInt8} {start place : Nat}
    (here : (data.take (start + part.length)).drop start = part) (inside : place < part.length) :
    data[start + place]? = part[place]? := by
  rw [← here, List.getElem?_drop, List.getElem?_take, if_pos (by omega)]

namespace Source

/-- Code at an offset: the bytes that it was read from, those after them, and what each of its
instructions is written as. -/
structure CodeSpelled (source : Source) (offset : Nat) (instructions : List Instruction)
    (read tail : List UInt8) (pieces : List (List UInt8)) : Prop where
  encoded : instructions.mapM (·.encode source.options.width) = .ok pieces
  size : pieces.flatten.length = codeSize source.options.width instructions
  here : source.bytes.drop offset = read ++ tail
  /-- The range is read to its end at least. -/
  reaches : source.stopAt offset ≤ offset + read.length
  shorter : read.length ≤ pieces.flatten.length
  exact : read.length = pieces.flatten.length → read = pieces.flatten ∧
    ∀ instruction ∈ instructions, instruction.WellTyped source.opcodes source.options.width
  respelled : offset + pieces.flatten.length ≤ source.bytes.length →
    Respelled (List.replicate source.options.width.unitSize 0) read pieces.flatten
      (codeCut? source.options.width instructions)

variable {source : Source} {offset : Nat} {instructions : List Instruction}

/-- Code that a strict parse discovers is spelled by the bytes at its offset. -/
theorem codeSpelled_of_decodeSegment (strict : source.options.lenient = false)
    (last : source.opcodes.VariadicLast) (inside : offset < source.bytes.length)
    {journal : Journal}
    (run : source.decodeSegment offset (source.stopAt offset) = .ok (instructions, journal)) :
    journal = [] ∧
      ∃ read tail pieces, source.CodeSpelled offset instructions read tail pieces := by
  have more := lt_stopAt inside
  -- The reader may go beyond the range, up to the end of the script.
  unfold decodeSegment at run
  rw [Reader.within_eq (Nat.le_of_lt inside) (Nat.le_refl _), List.take_length] at run
  obtain ⟨rfl, next, decoded, reached⟩ :=
    decodes_of_decodeSegmentSteps strict (by dsimp only; omega) run
  obtain ⟨read, pieces, encoded, size, spelled⟩ := decoded.spelled last
  refine ⟨rfl, read, next.rest, pieces, encoded, size, spelled.moves.rest, ?_, spelled.shorter,
    spelled.exact, fun room => spelled.respelled ?_⟩
  · rw [spelled.moves.position] at reached
    exact reached
  · simp only [List.length_drop]
    omega

/-- Code that fills a gap is spelled by the bytes at its offset. -/
theorem codeSpelled_of_classifyGap (last : source.opcodes.VariadicLast)
    (inside : offset < source.bytes.length)
    (found : source.classifyGap offset = .ok instructions) :
    ∃ read tail pieces, source.CodeSpelled offset instructions read tail pieces := by
  have more := lt_stopAt inside
  have within := source.stopAt_le offset
  obtain ⟨run, filled⟩ := classifyGap_eq_ok found
  -- The reader sees only the range, and reads all of it.
  obtain ⟨pieces, next, encoded, size, spelled⟩ :=
    spelled_of_decodeRange last (Nat.le_of_lt more) within run
  have count : (source.slice offset (source.stopAt offset)).length =
      source.stopAt offset - offset := source.slice_length within
  refine ⟨source.slice offset (source.stopAt offset), source.bytes.drop (source.stopAt offset),
    pieces, encoded, size, source.drop_eq_slice (Nat.le_of_lt more) within, by omega,
    spelled.shorter, spelled.exact, fun _ => spelled.respelled ?_⟩
  -- What fills a gap is written in as many bytes as the range has.
  have whole : pieces.flatten.length = source.stopAt offset - offset := size.trans filled
  exact Nat.le_of_eq (whole.trans count.symm)

/-- What is written for a segment, compared with the bytes that stand where the segment does. -/
structure Written (source : Source) (offset : Nat) (segment : Segment) (written : List UInt8) :
    Prop where
  encoded : segment.encode source.options.width = .ok written
  size : written.length = segment.size source.options.width
  /-- The segment goes on to the end of its range at least. -/
  reaches : source.stopAt offset ≤ offset + written.length
  /-- Data is written as it stood. -/
  data : ∀ bytes, segment.content = .data bytes →
    written = source.slice offset (offset + written.length)
  /-- A text is written with its terminator, and with zeros after that. -/
  text : ∀ value stored, segment.content = .text value stored →
    written = (source.slice offset (offset + written.length)).take
      (source.options.width.textExtent value written.length) ++
        List.replicate (written.length -
          source.options.width.textExtent value written.length) 0
  /-- Code is written as it stood if only zeros follow the first text that was cut off. -/
  code : ∀ instructions, segment.content = .code instructions →
    offset + written.length ≤ source.bytes.length →
      (written = source.slice offset (offset + written.length) ↔
        ∀ stop, codeCut? source.options.width instructions = some stop →
          (source.slice offset (offset + written.length)).drop stop =
            List.replicate (written.length - stop) 0)
  /-- Code that ends with its range is written as it stood, with arguments that fit. -/
  exact : ∀ instructions, segment.content = .code instructions →
    offset + written.length = source.stopAt offset →
      written = source.slice offset (source.stopAt offset) ∧
        ∀ instruction ∈ instructions, instruction.WellTyped source.opcodes source.options.width

/-- The bytes that code of some size stands for are the first of those at its offset. -/
theorem CodeSpelled.slice_eq {read tail : List UInt8} {pieces : List (List UInt8)}
    (spelled : source.CodeSpelled offset instructions read tail pieces) (size : Nat) :
    source.slice offset (offset + size) = (read ++ tail).take size := by
  rw [slice, List.drop_take, spelled.here, Nat.add_sub_cancel_left]

/-- Spelled code is written as its spelling says. -/
theorem CodeSpelled.written {read tail : List UInt8} {pieces : List (List UInt8)}
    (spelled : source.CodeSpelled offset instructions read tail pieces) (labels : LabelSet) :
    source.Written offset ⟨labels, .code instructions⟩ pieces.flatten where
  encoded := by
    simp only [Segment.encode, spelled.encoded]
    rfl
  size := spelled.size
  reaches := Nat.le_trans spelled.reaches (Nat.add_le_add_left spelled.shorter offset)
  data := fun _ other => by cases other
  text := fun _ _ other => by cases other
  code := by
    rintro _ ⟨⟩ room
    -- The bytes from the offset on have room for what is written.
    have count := congrArg List.length spelled.here
    rw [List.length_drop] at count
    rw [spelled.slice_eq]
    exact (spelled.respelled room).eq_take_iff source.options.width.unitSize_pos tail (by omega)
  exact := by
    rintro _ ⟨⟩ ends
    have reaches := spelled.reaches
    have shorter := spelled.shorter
    -- What was read is no shorter than the range, and no longer than what is written.
    obtain ⟨same, typed⟩ := spelled.exact (by omega)
    refine ⟨?_, typed⟩
    rw [← ends, spelled.slice_eq, ← same, List.take_left]

/-- Data is written as itself. -/
theorem written_data (inside : offset < source.bytes.length) (labels : LabelSet) :
    source.Written offset ⟨labels, .data (source.slice offset (source.stopAt offset))⟩
      (source.slice offset (source.stopAt offset)) where
  encoded := rfl
  size := rfl
  reaches := by
    rw [source.slice_length (source.stopAt_le offset)]
    omega
  data := by
    rintro _ ⟨⟩
    -- The range starts before it ends, so that its size leads to its end.
    have more := lt_stopAt inside
    rw [source.slice_length (source.stopAt_le offset),
      show offset + (source.stopAt offset - offset) = source.stopAt offset by omega]
  text := fun _ _ other => by cases other
  code := fun _ other => by cases other
  exact := fun _ other => by cases other

/-- A text is written to a field. -/
theorem written_text (inside : offset < source.bytes.length) {value : String}
    (read : source.decodeText offset (source.stopAt offset) = .ok value) (labels : LabelSet) :
    source.Written offset ⟨labels, .text value (some (source.stopAt offset - offset))⟩
      (source.options.width.field value (source.stopAt offset - offset)) where
  encoded := rfl
  size := CharWidth.field_length _ _ _
  reaches := by
    rw [CharWidth.field_length]
    omega
  data := fun _ other => by cases other
  text := by
    rintro _ _ ⟨⟩
    have more := lt_stopAt inside
    have within := source.stopAt_le offset
    have count : (source.slice offset (source.stopAt offset)).length =
        source.stopAt offset - offset := source.slice_length within
    rw [CharWidth.field_length,
      show offset + (source.stopAt offset - offset) = source.stopAt offset by omega]
    -- The field is read from all bytes of the range.
    unfold decodeText at read
    rw [Reader.within_eq (Nat.le_of_lt more) within] at read
    split at read
    · rename_i text next found
      cases read
      rw [← count] at found ⊢
      exact Reader.field_of_string found
    · cases read
  code := fun _ other => by cases other
  exact := fun _ other => by cases other

/-- What a strict parse has discovered is written. -/
theorem Describes.exists_written {segment : Segment} (described : source.Describes offset segment)
    (strict : source.options.lenient = false) (last : source.opcodes.VariadicLast) :
    ∃ written, source.Written offset segment written := by
  obtain ⟨labels, content⟩ := segment
  cases content with
  -- Data and texts are copied from the range, and code was spelled when it was read.
  | data bytes =>
    have read : bytes = _ := described.reads
    rw [read]
    exact ⟨_, written_data described.inside labels⟩
  | text value stored =>
    obtain ⟨rfl, read⟩ := described.reads
    exact ⟨_, written_text described.inside read labels⟩
  | code instructions =>
    obtain ⟨journal, run⟩ := described.reads
    obtain ⟨-, read, tail, pieces, spelled⟩ :=
      codeSpelled_of_decodeSegment strict last described.inside run
    exact ⟨_, spelled.written labels⟩

/-- What fills a gap is written. -/
theorem exists_written_gapSegment (last : source.opcodes.VariadicLast)
    (inside : offset < source.bytes.length) :
    ∃ written, source.Written offset (source.gapSegment offset) written := by
  -- A gap is filled with code that has been checked, or else with data.
  unfold gapSegment
  dsimp only
  split
  · rename_i instructions found
    obtain ⟨read, tail, pieces, spelled⟩ := codeSpelled_of_classifyGap last inside found
    exact ⟨_, spelled.written _⟩
  · exact ⟨_, written_data inside _⟩

/-- Every segment of a strict parse is written. -/
theorem exists_written_tileAt {state : Discovery} (strict : source.options.lenient = false)
    (last : source.opcodes.VariadicLast) (sound : state.Sound source)
    (inside : offset < source.bytes.length) :
    ∃ written, source.Written offset (source.tileAt state.segments offset).segment written := by
  -- A segment was discovered, or fills a gap.
  rcases tileAt_cases source state.segments offset with ⟨segment, found, tile, -⟩ | tile
  · rw [tile]
    exact (sound offset segment found).exists_written strict last
  · rw [tile]
    exact exists_written_gapSegment last inside

end Source

/-- What a segment is written as, nothing if it cannot be. -/
def Segment.written (width : CharWidth) (segment : Segment) : List UInt8 :=
  match segment.encode width with
  | .ok bytes => bytes
  | .error _ => []

/-- Labels make no difference to what a segment is written as. -/
theorem Segment.encode_addLabels (width : CharWidth) (segment : Segment) (labels : List Label) :
    (segment.addLabels labels).encode width = segment.encode width := rfl

namespace Source.Tiled

variable {source : Source} {segments : SegmentMap} {start : Nat} {tiles : List Tile}

/-- Parts as long as the segments of a tiling stand where the segments do. -/
theorem range_flatMap (tiled : source.Tiled segments start tiles) {part : Tile → List UInt8}
    (sizes : ∀ tile ∈ tiles, (part tile).length = tile.segment.size source.options.width)
    {tile : Tile} (listed : tile ∈ tiles) :
    ((tiles.flatMap part).take (tile.offset - start + (part tile).length)).drop
      (tile.offset - start) = part tile := by
  -- Parts before this one are skipped one by one.
  induction tiled with
  | done past => cases listed
  | @next offset rest inside others ih =>
    rw [List.flatMap_cons]
    rcases List.mem_cons.mp listed with rfl | later
    · rw [tileAt_offset, Nat.sub_self, Nat.zero_add, List.take_left, List.drop_zero]
    · have size := sizes _ List.mem_cons_self
      have beyond := (others.of_mem later).2.1
      have found := ih (fun other more => sizes other (List.mem_cons_of_mem _ more)) later
      -- The first part stands before the place where this one is.
      rw [show tile.offset - offset = (part (source.tileAt segments offset)).length +
          (tile.offset - (offset +
            (source.tileAt segments offset).segment.size source.options.width)) by omega,
        Nat.add_assoc, List.take_length_add_append, List.drop_length_add_append]
      exact found

/-- Two places in segments that are the same byte are the same place. -/
theorem tile_unique (tiled : source.Tiled segments start tiles) {a b : Tile}
    (firstListed : a ∈ tiles) (secondListed : b ∈ tiles) {place other : Nat}
    (inFirst : place < a.segment.size source.options.width)
    (inSecond : other < b.segment.size source.options.width)
    (same : a.offset + place = b.offset + other) : a = b := by
  -- One of both tiles starts first, and the other one inside of it.
  rcases Nat.le_total a.offset b.offset with before | after
  · exact tiled.disjoint firstListed secondListed before (by omega)
  · exact (tiled.disjoint secondListed firstListed after (by omega)).symm

/-- The script of a strict parse is written, segment by segment, in as many bytes as it was read
from. -/
theorem encode_labelled {state : Discovery} (strict : source.options.lenient = false)
    (last : source.opcodes.VariadicLast) (sound : state.Sound source)
    (tiled : source.Tiled state.segments 0 tiles)
    (total : (tiles.map (·.segment.size source.options.width)).sum = source.bytes.length) :
    ∃ encoded, (source.labelled tiles).encode source.options.width = .ok encoded ∧
      encoded.bytes.length = source.bytes.length ∧
      encoded.labels =
        labelTable (((source.labelled tiles).segments.map (·.labels)).zip (tiles.map (·.offset))) ∧
      ∀ tile ∈ tiles, ∃ written, source.Written tile.offset tile.segment written ∧
        tile.offset + written.length ≤ source.bytes.length ∧
        (encoded.bytes.take (tile.offset + written.length)).drop tile.offset = written := by
  let width := source.options.width
  -- Each segment is written as what its bytes have been compared with.
  have written : ∀ tile ∈ tiles, source.Written tile.offset tile.segment
      (tile.segment.written width) := by
    intro tile listed
    obtain ⟨same, -, inside⟩ := tiled.of_mem listed
    obtain ⟨bytes, made⟩ := exists_written_tileAt strict last sound inside
    rw [← same] at made
    have chosen : tile.segment.written width = bytes := by
      rw [Segment.written, made.encoded]
    rwa [chosen]
  have sizes : ∀ tile ∈ tiles, (tile.segment.written width).length = tile.segment.size width :=
    fun tile listed => (written tile listed).size
  -- No segment fails to be written.
  have pieces : (source.labelled tiles).segments.mapM (·.encode width) =
      .ok ((source.labelled tiles).segments.map (·.written width)) := by
    refine mapM_of_ok fun segment listed => ?_
    obtain ⟨tile, here, rfl⟩ := List.mem_map.mp listed
    rw [Segment.encode_addLabels, (written tile here).encoded]
    rfl
  have parts : (source.labelled tiles).segments.map (·.written width) =
      tiles.map (·.segment.written width) := by
    rw [labelled, List.map_map]
    rfl
  -- Written segments start where the segments that were read did.
  have lengths : (tiles.map (·.segment.written width)).map List.length =
      tiles.map (·.segment.size width) := by
    rw [List.map_map]
    exact List.map_congr_left sizes
  refine ⟨⟨tiles.flatMap (·.segment.written width), labelTable
    (((source.labelled tiles).segments.map (·.labels)).zip (tiles.map (·.offset)))⟩, ?_, ?_, rfl, ?_⟩
  · rw [Script.encode, pieces, parts, List.flatMap_def, ← tiled.offsets_eq, ← lengths]
    rfl
  · rw [← total, List.length_flatMap, ← lengths, List.map_map]
    rfl
  · intro tile listed
    refine ⟨_, written tile listed, ?_, tiled.range_flatMap sizes listed⟩
    -- No segment goes beyond the end of the script.
    have bound := tiled.end_le listed
    have size : (tile.segment.written width).length = tile.segment.size source.options.width :=
      sizes tile listed
    omega

end Source.Tiled

end QuestScript
