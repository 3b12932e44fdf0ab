import QuestScript.Proofs.Discovery.Replay
import QuestScript.Proofs.Parse.Faithful
import QuestScript.Proofs.Parse.Labels
import QuestScript.Proofs.Script.LabelTable

/-! A script that is read without a problem is read the same from what it is written as. -/

namespace QuestScript

namespace Source

/-- A strict parse without problems: every label is the start of a segment. -/
structure Clean (source : Source) (labels : LabelTable) (state : Discovery) (tiles : List Tile) :
    Prop where
  strict : source.options.lenient = false
  last : source.opcodes.VariadicLast
  indexed : source.index = .ofTable labels
  sound : state.Sound source
  tiled : source.Tiled state.segments 0 tiles
  total : (tiles.map (·.segment.size source.options.width)).sum = source.bytes.length
  starts : ∀ label offset, labels.offset? label = some offset → ∃ tile ∈ tiles, tile.offset = offset

/-- Another script with what a parse's segments are written as in their places. -/
structure Reprints (source second : Source) (tiles : List Tile) : Prop where
  index : second.index = source.index
  opcodes : second.opcodes = source.opcodes
  options : second.options = source.options
  size : second.bytes.length = source.bytes.length
  pieces : ∀ tile ∈ tiles, ∃ written, source.Written tile.offset tile.segment written ∧
    second.slice tile.offset (tile.offset + written.length) = written

/-- The ranges of both scripts end at the same places. -/
theorem Reprints.stopAt_eq {source second : Source} {tiles : List Tile}
    (reprints : source.Reprints second tiles) (offset : Nat) :
    second.stopAt offset = source.stopAt offset := by
  rw [stopAt, stopAt, reprints.index, reprints.size]

/-- A text is read from the bytes of its range. -/
theorem decodeText_eq {source : Source} {offset : Nat} (inside : offset < source.bytes.length) :
    source.decodeText offset (source.stopAt offset) =
      match Reader.string source.options.width (source.slice offset (source.stopAt offset)).length
          true ⟨offset, source.slice offset (source.stopAt offset)⟩ with
      | .ok text _ => .ok text
      | .error cause _ => .error cause := by
  -- The limit of a text is the range itself.
  have more := lt_stopAt inside
  have within := source.stopAt_le offset
  rw [decodeText, Reader.within_eq (Nat.le_of_lt more) within, source.slice_length within]
  rfl

namespace Clean

variable {source second : Source} {labels : LabelTable} {state : Discovery} {tiles : List Tile}

/-- Without a problem every segment ends where its range does. -/
theorem end_eq (clean : source.Clean labels state tiles) {tile : Tile} (listed : tile ∈ tiles)
    {written : List UInt8} (made : source.Written tile.offset tile.segment written) :
    tile.offset + written.length = source.stopAt tile.offset := by
  have reaches := made.reaches
  have bound := clean.tiled.end_le listed
  have size := made.size
  have inside := (clean.tiled.of_mem listed).2.2
  have more := lt_stopAt inside
  have total := clean.total
  -- It is never shorter, and to be longer it would have to run over a label.
  refine Nat.le_antisymm (Nat.le_of_not_lt fun beyond => ?_) reaches
  -- The range would end at a label inside the segment, and another segment would start there.
  have short : (LabelIndex.ofTable labels).rangeEnd source.bytes.length tile.offset <
      source.bytes.length := by
    rw [← clean.indexed]
    exact Nat.lt_of_lt_of_le beyond (by omega)
  obtain ⟨label, given⟩ := LabelIndex.exists_offset_rangeEnd short
  obtain ⟨other, otherListed, there⟩ := clean.starts label _ given
  rw [← clean.indexed] at there
  have same := clean.tiled.disjoint listed otherListed (by rw [there]; exact Nat.le_of_lt more)
    (by rw [there, ← size]; exact beyond)
  rw [← same] at there
  exact Nat.ne_of_lt more there

/-- Nothing that was discovered is empty. -/
theorem size_pos (clean : source.Clean labels state tiles) {offset : Nat} {segment : Segment}
    (found : state.segments.find? offset = some segment) :
    0 < segment.size source.options.width := by
  have described := clean.sound offset segment found
  obtain ⟨written, made⟩ := described.exists_written clean.strict clean.last
  -- What is written reaches to the end of a range that is not empty.
  have more := lt_stopAt described.inside
  have reaches := made.reaches
  have size := made.size
  omega

/-- Without a problem all that was discovered is in the script. -/
theorem tile_of_find? (clean : source.Clean labels state tiles) {offset : Nat} {segment : Segment}
    (found : state.segments.find? offset = some segment) : ⟨offset, segment, false⟩ ∈ tiles := by
  have described := clean.sound offset segment found
  -- A label points at the segment, so that a tile starts there.
  obtain ⟨label, carried⟩ := List.exists_mem_of_ne_nil _ described.labelled
  have placed := described.placed label carried
  rw [clean.indexed, LabelIndex.offset?_ofTable] at placed
  obtain ⟨tile, listed, rfl⟩ := clean.starts label offset placed
  -- The tile there is the one that was discovered, since that is not empty.
  have same := (clean.tiled.of_mem listed).1
  rw [tileAt_of_find? found (clean.size_pos found)] at same
  rwa [← same]

/-- What is written for a segment stands in the range of the segment. -/
theorem slice_of_mem (clean : source.Clean labels state tiles)
    (reprints : source.Reprints second tiles) {tile : Tile} (listed : tile ∈ tiles) :
    source.Written tile.offset tile.segment
      (second.slice tile.offset (source.stopAt tile.offset)) := by
  -- The piece of the segment starts where the segment does, and is as long.
  obtain ⟨written, made, here⟩ := reprints.pieces tile listed
  rw [clean.end_eq listed made] at here
  rwa [here]

/-- Code and data are the same in both scripts. -/
theorem slice_eq (clean : source.Clean labels state tiles)
    (reprints : source.Reprints second tiles) {tile : Tile} (listed : tile ∈ tiles)
    (notText : tile.segment.kind ≠ .text) :
    second.slice tile.offset (source.stopAt tile.offset) =
      source.slice tile.offset (source.stopAt tile.offset) := by
  -- Code that ends with its range is written as it stood, and data always is.
  have made := clean.slice_of_mem reprints listed
  have ends := clean.end_eq listed made
  obtain ⟨offset, ⟨carried, content⟩, filled⟩ := tile
  cases content with
  | text value stored => exact absurd rfl notText
  | code instructions => exact (made.exact instructions rfl ends).1
  | data bytes =>
    have same := made.data bytes rfl
    rwa [ends] at same

/-- A text is read back from the field that it is written to. -/
theorem decodeText_text (clean : source.Clean labels state tiles)
    (reprints : source.Reprints second tiles) {offset : Nat} {carried : LabelSet} {value : String}
    {filled : Bool}
    (listed : ⟨offset, ⟨carried, .text value (some (source.stopAt offset - offset))⟩, filled⟩ ∈ tiles)
    (read : source.decodeText offset (source.stopAt offset) = .ok value) :
    second.decodeText offset (second.stopAt offset) = .ok value := by
  have inside := (clean.tiled.of_mem listed).2.2
  have count : (source.slice offset (source.stopAt offset)).length = source.stopAt offset - offset :=
    source.slice_length (source.stopAt_le offset)
  -- The other script has the field in place of the text.
  have field : source.options.width.field value (source.stopAt offset - offset) =
      second.slice offset (source.stopAt offset) :=
    Except.ok.inj (clean.slice_of_mem reprints listed).encoded
  rw [Source.decodeText_eq inside] at read
  rw [Source.decodeText_eq (by rw [reprints.size]; exact inside), reprints.stopAt_eq,
    reprints.options, ← field, CharWidth.field_length, ← count]
  split at read
  · rename_i text next found
    cases read
    rw [Reader.string_field found]
  · cases read

/-- Whether a range that was discovered is a text does not depend on which script it is read from. -/
theorem decodeText_eq (clean : source.Clean labels state tiles)
    (reprints : source.Reprints second tiles) {offset : Nat} {segment : Segment}
    (found : state.segments.find? offset = some segment) :
    second.decodeText offset (second.stopAt offset) =
      source.decodeText offset (source.stopAt offset) := by
  have listed := clean.tile_of_find? found
  have described := clean.sound offset segment found
  by_cases text : segment.kind = .text
  · obtain ⟨carried, content⟩ := segment
    cases content with
    | data bytes => cases text
    | code instructions => cases text
    | text value stored =>
      obtain ⟨rfl, read⟩ := described.reads
      rw [read]
      exact clean.decodeText_text reprints listed read
  · -- Other ranges are the same in both scripts.
    have inside := described.inside
    have same := clean.slice_eq reprints listed text
    rw [Source.decodeText_eq inside, Source.decodeText_eq (by rw [reprints.size]; exact inside),
      reprints.stopAt_eq, reprints.options, same]

/-- Code that was discovered is read back from what it is written as. -/
theorem decodeSegment_eq (clean : source.Clean labels state tiles)
    (reprints : source.Reprints second tiles) {offset : Nat} {segment : Segment}
    (found : state.segments.find? offset = some segment) (code : segment.kind = .code) :
    second.decodeSegment offset (second.stopAt offset) =
      source.decodeSegment offset (source.stopAt offset) := by
  have listed := clean.tile_of_find? found
  have described := clean.sound offset segment found
  have inside := described.inside
  have made := clean.slice_of_mem reprints listed
  have ends : offset + (second.slice offset (source.stopAt offset)).length =
      source.stopAt offset := clean.end_eq listed made
  obtain ⟨carried, content⟩ := segment
  cases content with
  | data bytes => cases code
  | text value stored => cases code
  | code instructions =>
    obtain ⟨journal, run⟩ := described.reads
    -- A strict parse logs nothing about code, so that only the instructions count.
    obtain ⟨rfl, -⟩ := codeSpelled_of_decodeSegment clean.strict clean.last inside run
    rw [run]
    -- Arguments that fit are read back whatever follows them.
    obtain ⟨same, typed⟩ := made.exact instructions rfl ends
    obtain ⟨pieces, encoded, joined⟩ := except_bind_eq_ok made.encoded
    have joined : pieces.flatten = second.slice offset (source.stopAt offset) := Except.ok.inj joined
    have more := lt_stopAt inside
    have within := source.stopAt_le offset
    have size : pieces.flatten.length = source.stopAt offset - offset := by
      rw [joined]
      omega
    -- The other script has the written code first, and then what is left of it.
    have front : second.bytes.drop offset =
        pieces.flatten ++ second.bytes.drop (source.stopAt offset) := by
      rw [joined]
      exact second.drop_eq_slice (Nat.le_of_lt more) (by rw [reprints.size]; exact within)
    have read := decodeSegmentSteps_encode (by rw [reprints.opcodes]; exact clean.last)
      (by rw [reprints.opcodes, reprints.options]; exact typed)
      (by rw [reprints.options]; exact encoded) offset (source.stopAt offset - offset) offset
      (second.bytes.drop (source.stopAt offset)) (Nat.le_of_eq size)
    rw [size, Nat.add_sub_cancel' (Nat.le_of_lt more), ← front] at read
    rw [decodeSegment, Reader.within_eq (by rw [reprints.size]; exact Nat.le_of_lt inside)
      (Nat.le_refl _), List.take_length, reprints.stopAt_eq]
    exact read

/-- A discovery goes the same way in both scripts. -/
theorem echoes (clean : source.Clean labels state tiles) (reprints : source.Reprints second tiles) :
    source.Echoes second state where
  index := reprints.index
  options := reprints.options
  size := reprints.size
  text := fun _ _ found => clean.decodeText_eq reprints found
  code := fun _ _ found code => clean.decodeSegment_eq reprints found code

/-- A gap is filled in the same way in both scripts. -/
theorem gapSegment_eq (clean : source.Clean labels state tiles)
    (reprints : source.Reprints second tiles) {tile : Tile} (listed : tile ∈ tiles)
    (gap : tile.segment = source.gapSegment tile.offset) :
    second.gapSegment tile.offset = source.gapSegment tile.offset := by
  have inside := (clean.tiled.of_mem listed).2.2
  have more := lt_stopAt inside
  have within := source.stopAt_le tile.offset
  have same := clean.slice_eq reprints listed (by rw [gap]; exact source.gapSegment_kind _)
  -- Both scripts are classified by the same bytes.
  have decoded : decodeRange second.bytes tile.offset (source.stopAt tile.offset) source.opcodes
      source.options.width = decodeRange source.bytes tile.offset (source.stopAt tile.offset)
        source.opcodes source.options.width := by
    rw [decodeRange, decodeRange,
      Reader.within_eq (Nat.le_of_lt more) (by rw [reprints.size]; exact within),
      Reader.within_eq (Nat.le_of_lt more) within, ← slice, ← slice, same]
  have classified : second.classifyGap tile.offset = source.classifyGap tile.offset := by
    rw [classifyGap, classifyGap, reprints.index, reprints.opcodes, reprints.options,
      reprints.size, classify, classify, ← stopAt, decoded, reprints.size]
  rw [gapSegment, gapSegment, classified, reprints.index, reprints.size, ← stopAt, same]

/-- What was discovered has the same data in both scripts. -/
theorem rebase_eq (clean : source.Clean labels state tiles)
    (reprints : source.Reprints second tiles) {offset : Nat} {segment : Segment}
    (found : state.segments.find? offset = some segment) :
    segment.rebase second offset = segment := by
  have listed := clean.tile_of_find? found
  have described := clean.sound offset segment found
  obtain ⟨carried, content⟩ := segment
  cases content with
  | code instructions => rfl
  | text value stored => rfl
  | data bytes =>
    -- The data is what its range holds, and that is the same in both scripts.
    have read : bytes = source.slice offset (source.stopAt offset) := described.reads
    have same : second.slice offset (source.stopAt offset) = _ :=
      clean.slice_eq reprints listed SegmentKind.noConfusion
    rw [Segment.rebase, read, ← same, reprints.stopAt_eq]

/-- Both scripts have the same segments. -/
theorem tileAt_eq (clean : source.Clean labels state tiles)
    (reprints : source.Reprints second tiles) {tile : Tile} (listed : tile ∈ tiles) :
    second.tileAt (state.rebase second).segments tile.offset = tile := by
  have here := (clean.tiled.of_mem listed).1
  have find : (state.rebase second).segments.find? tile.offset =
      (state.segments.find? tile.offset).map (·.rebase second tile.offset) :=
    SegmentMap.find?_rebase second state.segments tile.offset
  -- Discovered segments are kept, and gaps are filled from the same bytes.
  cases found : state.segments.find? tile.offset with
  | some segment =>
    have positive := clean.size_pos found
    rw [found, Option.map_some, clean.rebase_eq reprints found] at find
    rw [tileAt_of_find? found positive] at here
    rw [tileAt_of_find? find (by rw [reprints.options]; exact positive), ← here]
  | none =>
    rw [found, Option.map_none] at find
    rw [tileAt_of_none found] at here
    rw [tileAt_of_none find, clean.gapSegment_eq reprints listed (congrArg Tile.segment here),
      ← here]

/-- Both scripts are assembled from the same segments. -/
theorem assemble_eq (clean : source.Clean labels state tiles)
    (reprints : source.Reprints second tiles) :
    (second.assemble (state.rebase second)).1 = (source.assemble state).1 := by
  have first : source.tiles state.segments = tiles :=
    (source.tiled_tiles state.segments).unique clean.tiled
  -- Step by step the same tiles are found.
  have again : second.tiles (state.rebase second).segments = tiles :=
    (second.tiled_tiles _).unique (clean.tiled.transfer reprints.options reprints.size
      fun tile listed => clean.tileAt_eq reprints listed)
  simp only [assemble, again, first, strayLabels, labelled, reprints.index, reprints.options,
    reprints.size]
  rfl

/-- Without a problem code is written as it stood as well. -/
theorem getElem?_written (clean : source.Clean labels state tiles) {tile : Tile}
    (listed : tile ∈ tiles) {written : List UInt8}
    (made : source.Written tile.offset tile.segment written)
    (room : tile.offset + written.length ≤ source.bytes.length) {place : Nat}
    (inside : place < written.length)
    (kept : tile.segment.isPadding source.options.width place = false) :
    written[place]? = source.bytes[tile.offset + place]? := by
  by_cases code : tile.segment.kind = .code
  -- Code that ends with its range has no string that is cut off.
  · have ends := clean.end_eq listed made
    refine Written.eq_slice_iff.mp ?_ place inside
    obtain ⟨instructions, content⟩ := Segment.content_of_code code
    rw [ends]
    exact (made.exact instructions content ends).1
  · exact made.getElem?_of_not_code code room inside kept

/-- Without a problem the segments carry every label where the table puts it. -/
theorem labelTable_eq (clean : source.Clean labels state tiles) :
    ∃ count, labels = labelTable (((source.labelled tiles).segments.map (·.labels)).zip
      (tiles.map (·.offset))) ++ List.replicate count noOffset := by
  refine QuestScript.labelTable_eq fun label offset => ?_
  rw [labelled, List.map_map, List.zip_map']
  -- The labels of a tile are those that the table puts at its offset.
  have carried : ∀ tile ∈ tiles, label ∈ (tile.segment.addLabels
      (source.index.labelsAt tile.offset)).labels ↔ labels.offset? label = some tile.offset := by
    intro tile listed
    have named := mem_labels_tileAt clean.indexed clean.sound tile.offset label
    rwa [← (clean.tiled.of_mem listed).1] at named
  constructor
  · rintro ⟨entry, found, named, rfl⟩
    obtain ⟨tile, listed, rfl⟩ := List.mem_map.mp found
    exact (carried tile listed).mp named
  -- Every label with a place is the start of a tile, which carries it.
  · intro given
    obtain ⟨tile, listed, rfl⟩ := clean.starts label offset given
    exact ⟨_, List.mem_map.mpr ⟨tile, listed, rfl⟩, (carried tile listed).mpr given, rfl⟩

end Clean

/-- A parse with a value and no problems is clean. -/
theorem clean_of_assemble {source : Source} {labels : LabelTable} {entries : List Label}
    {passes : Nat} {state : Discovery} {script : Script}
    (strict : source.options.lenient = false) (last : source.opcodes.VariadicLast)
    (indexed : source.index = .ofTable labels)
    (run : runDiscovery source entries {} = .ok passes state)
    (made : (source.assemble state).1 = ⟨some script, []⟩) :
    script = source.labelled (source.tiles state.segments) ∧
      source.Clean labels state (source.tiles state.segments) := by
  obtain ⟨same, problems, total⟩ := assemble_eq_some made
  have tiled := source.tiled_tiles state.segments
  generalize source.tiles state.segments = tiles at same problems total tiled
  refine ⟨same, strict, last, indexed, sound_of_runDiscovery run, tiled, total strict, ?_⟩
  intro label offset given
  -- A label at which no segment starts would be a problem.
  have none : source.strayed tiles = [] := by
    have empty := (List.append_eq_nil_iff.mp (List.append_eq_nil_iff.mp problems.symm).2).1
    rw [strayLabels, List.map_eq_nil_iff] at empty
    rw [strayed, empty, List.map_nil]
  have kept : label ∉ source.strayed tiles := by
    rw [none]
    exact List.not_mem_nil
  rw [mem_strayed indexed] at kept
  by_cases here : offset ∈ tiles.map (·.offset)
  · exact List.mem_map.mp here
  · exact absurd ⟨offset, given, here⟩ kept

end Source

/-- A script that is read without a problem survives being written.

It is written in as many bytes as it was read from, which are the same but for zeros after the
terminators of texts, and with the same label table up to labels without a place at its end. What is
written is read without a problem, too, as the same script. -/
theorem parse_encode_of_clean {opcodes : OpcodeTable} (last : opcodes.VariadicLast)
    {bytes : List UInt8} {labels : LabelTable} {entries : List Label} {options : ParseOptions}
    (strict : options.lenient = false) {script : Script}
    (parsed : (parse bytes labels entries opcodes options).1 = .ok ⟨some script, []⟩) :
    ∃ encoded, script.encode options.width = .ok encoded ∧
      encoded.bytes.length = bytes.length ∧
      (∀ position, script.IsPadding options.width position →
        encoded.bytes[position]? = some 0) ∧
      (∀ position, ¬script.IsPadding options.width position →
        encoded.bytes[position]? = bytes[position]?) ∧
      (∃ count, labels = encoded.labels ++ List.replicate count noOffset) ∧
      (parse encoded.bytes encoded.labels entries opcodes options).1 =
        .ok ⟨some script, []⟩ := by
  obtain ⟨passes, state, run, made⟩ := parse_eq_ok.mp parsed
  generalize known : (⟨bytes, .ofTable labels, opcodes, options⟩ : Source) = source at run made
  obtain rfl : source.bytes = bytes := by rw [← known]
  obtain rfl : source.opcodes = opcodes := by rw [← known]
  obtain rfl : source.options = options := by rw [← known]
  have indexed : source.index = .ofTable labels := by rw [← known]
  obtain ⟨rfl, clean⟩ := Source.clean_of_assemble strict last indexed run made
  generalize source.tiles state.segments = tiles at clean made
  obtain ⟨encoded, wrote, size, table, pieces⟩ :=
    clean.tiled.encode_labelled strict last clean.sound clean.total
  obtain ⟨count, same⟩ := clean.labelTable_eq
  rw [← table] at same
  -- What is written is another script with the same index, up to labels without a place.
  have reprints : source.Reprints
      ⟨encoded.bytes, .ofTable encoded.labels, source.opcodes, source.options⟩ tiles := by
    refine ⟨?_, rfl, rfl, size, fun tile listed => ?_⟩
    · rw [indexed, same, LabelIndex.ofTable_append_noOffset]
    · obtain ⟨written, spelled, -, here⟩ := pieces tile listed
      exact ⟨written, spelled, here⟩
  refine ⟨encoded, wrote, size, ?_, ?_, ⟨count, same⟩, ?_⟩
  · rintro position ⟨segment, place, located, padding⟩
    obtain ⟨tile, listed, rfl, inside, rfl⟩ := clean.tiled.locates_iff.mp located
    obtain ⟨written, spelled, room, here⟩ := pieces tile listed
    rw [← spelled.size] at inside
    rw [getElem?_range here inside]
    exact spelled.getElem?_of_isPadding room inside padding
  · intro position kept
    refine clean.tiled.getElem?_of_agree size (fun tile listed => ?_) kept
    obtain ⟨written, spelled, room, here⟩ := pieces tile listed
    exact ⟨written, spelled.size, here,
      fun place within outside => clean.getElem?_written listed spelled room within outside⟩
  · -- The discovery and the tiling go the same way again.
    refine parse_eq_ok.mpr ⟨passes, state.rebase _, runDiscovery_echoes (clean.echoes reprints) run, ?_⟩
    rw [clean.assemble_eq reprints, made]

/-- The standard opcodes have variadic parameters only at their ends. -/
theorem standard_variadicLast : OpcodeTable.standard.VariadicLast :=
  @Config.opcodeTable_variadicLast {} .standard rfl

/-- Code and a text survive being written, but for the byte after the text. -/
theorem parse_encode_talkBytes :
    OpcodeTable.standard.VariadicLast ∧
      (parse talkBytes [0, 7] [0] .standard { width := .narrow }).1 = .ok ⟨some talkScript, []⟩ ∧
      ∃ encoded, talkScript.encode .narrow = .ok encoded ∧
        encoded.bytes.length = talkBytes.length ∧
        (∀ position, talkScript.IsPadding .narrow position →
          encoded.bytes[position]? = some 0) ∧
        (∀ position, ¬talkScript.IsPadding .narrow position →
          encoded.bytes[position]? = talkBytes[position]?) ∧
        (∃ count, [0, 7] = encoded.labels ++ List.replicate count noOffset) ∧
        (parse encoded.bytes encoded.labels [0] .standard { width := .narrow }).1 =
          .ok ⟨some talkScript, []⟩ :=
  -- The parse is strict and has no problems, so that the script is written and read again.
  ⟨standard_variadicLast, parse_talkBytes,
    @parse_encode_of_clean .standard standard_variadicLast talkBytes [0, 7] [0]
      { width := .narrow } rfl talkScript parse_talkBytes⟩

end QuestScript
