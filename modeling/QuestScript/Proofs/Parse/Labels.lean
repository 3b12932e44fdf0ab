import QuestScript.Proofs.Parse.Tiling

/-! Every label is accounted for: a segment carries it, or a warning says that none does. -/

namespace QuestScript

/-- What a parse says about a label at which no segment starts. -/
def strayText (label : Label) : String := s!"Label {label} doesn't point to anything."

/-- Warnings that a label does not point to anything. -/
def strayWarnings (problems : List Problem) (label : Label) : Nat :=
  problems.countP fun problem =>
    problem.severity == .warning && problem.summary == strayText label

/-- Segments that carry a label. -/
def Script.carriers (script : Script) (label : Label) : Nat :=
  script.segments.countP (·.labels.contains label)

/-- A segment that discovery found, rather than one that was made up for what it had left out. -/
def Source.Discovers (source : Source) (entries : List Label) (offset : Nat) (segment : Segment) :
    Prop :=
  ∃ passes state found, runDiscovery source entries {} = .ok passes state ∧
    state.segments.find? offset = some found ∧ found.content = segment.content

/-- What becomes of the labels of a script. -/
structure LabelsAccounted (source : Source) (labels : LabelTable) (entries : List Label)
    (script : Script) (problems : List Problem) : Prop where
  /-- A segment carries the labels at its offset, and no others. -/
  carried : ∀ start segment, (start, segment) ∈ script.placed source.options.width →
    ∀ label, label ∈ segment.labels ↔ labels.offset? label = some start
  /-- A label with a place is carried once, or it is warned about once, and never both. -/
  once : ∀ label offset, labels.offset? label = some offset →
    script.carriers label = 1 ∧ strayWarnings problems label = 0 ∨
      script.carriers label = 0 ∧ strayWarnings problems label = 1
  /-- Only the end of the script, and labelled code that was discovered, leave a label out. -/
  swallowed : ∀ label, 0 < strayWarnings problems label →
    ∃ offset, labels.offset? label = some offset ∧
      (source.bytes.length ≤ offset ∨
        ∃ start segment, (start, segment) ∈ script.placed source.options.width ∧
          segment.kind = .code ∧ segment.labels ≠ [] ∧
          source.Discovers entries start segment ∧ start < offset ∧
          offset < start + segment.size source.options.width)

/-- Texts that differ in nothing but the number of a label say which one it is. -/
theorem labelText_inj (front back : String) {a b : Label} :
    front ++ toString a ++ back = front ++ toString b ++ back ↔ a = b := by
  refine ⟨fun same => ?_, fun same => same ▸ rfl⟩
  have chars := congrArg String.toList same
  simp only [toString, String.toList_append, List.append_cancel_left_eq,
    List.append_cancel_right_eq, Nat.toList_repr] at chars
  -- The digits of a number are read back as the number.
  rw [← @Nat.ofDigitChars_ten_toDigits a, chars, Nat.ofDigitChars_ten_toDigits]

/-- The text about a label says which one it is. -/
theorem strayText_inj {a b : Label} : strayText a = strayText b ↔ a = b := labelText_inj _ _

/-- The text about a label that nothing points to is not that about an unregistered one. -/
theorem unregistered_ne_strayText (options : ParseOptions) (label other : Label) :
    (Discovery.unregistered options label).summary ≠ strayText other := by
  intro same
  -- The two texts end with different words.
  have chars := congrArg (fun text => text.toList.reverse.take 3) same
  simp only [Discovery.unregistered, strayText, String.toList_append, List.reverse_append] at chars
  rw [List.take_append_of_le_length (by decide), List.take_append_of_le_length (by decide)] at chars
  exact absurd chars (by decide)

namespace Source

variable {source : Source}

/-- Nothing else that a parse reports is about a label that nothing points to. -/
theorem strayWarnings_eq_zero {state : Discovery} (accounts : state.Accounts source)
    (expected actual : Nat) (label : Label) :
    strayWarnings state.problems label = 0 ∧
      strayWarnings (sizeProblem expected actual) label = 0 := by
  constructor
  · refine List.countP_eq_zero.mpr fun problem listed => ?_
    rw [accounts] at listed
    -- All that a discovery reports is about labels without a place.
    obtain ⟨other, -, rfl⟩ := List.mem_map.mp listed
    simp [unregistered_ne_strayText source.options other label]
  · unfold sizeProblem
    split
    · rfl
    · simp [strayWarnings]

/-- The labels at which no segment of a tiling starts. -/
def strayed (source : Source) (tiles : List Tile) : List Label :=
  (source.index.places.filter fun place => !tiles.any (·.offset == place.offset)).map (·.label)

/-- A label is warned about for each of its places at which no segment starts. -/
theorem strayWarnings_strayLabels (tiles : List Tile) (label : Label) :
    strayWarnings (source.strayLabels tiles) label = (source.strayed tiles).count label := by
  rw [strayWarnings, strayLabels, List.countP_map, strayed, List.count, List.countP_map]
  -- The texts tell the labels apart.
  refine List.countP_congr fun place _ => ?_
  simp only [Function.comp_apply, Bool.and_eq_true, beq_iff_eq, true_and]
  exact strayText_inj

/-- A label is warned about as often as it is left out. -/
theorem strayWarnings_problems {state : Discovery} (accounts : state.Accounts source)
    (tiles : List Tile) (expected actual : Nat) (label : Label) :
    strayWarnings (state.problems ++
        (source.strayLabels tiles ++ sizeProblem expected actual)) label =
      (source.strayed tiles).count label := by
  -- Neither reports nor a wrong size are taken for such a warning.
  obtain ⟨reports, size⟩ := strayWarnings_eq_zero accounts expected actual label
  rw [← strayWarnings_strayLabels]
  rw [strayWarnings] at reports size
  rw [strayWarnings, List.countP_append, List.countP_append, reports, size, strayWarnings]
  omega

/-- A label is left out if it has a place and no segment starts there. -/
theorem mem_strayed {labels : LabelTable} (indexed : source.index = .ofTable labels)
    {tiles : List Tile} {label : Label} :
    label ∈ source.strayed tiles ↔
      ∃ offset, labels.offset? label = some offset ∧ offset ∉ tiles.map (·.offset) := by
  -- The places of the index are those of the table, and are left out unless a segment starts there.
  simp only [strayed, indexed, List.mem_map, List.mem_filter, Bool.not_eq_true',
    List.any_eq_false, beq_iff_eq, LabelIndex.mem_places, not_exists, not_and]
  constructor
  · rintro ⟨place, ⟨given, apart⟩, rfl⟩
    exact ⟨place.offset, given, apart⟩
  · rintro ⟨offset, given, apart⟩
    exact ⟨⟨offset, label⟩, ⟨given, apart⟩, rfl⟩

/-- No label is left out twice. -/
theorem nodup_strayed {labels : LabelTable} (indexed : source.index = .ofTable labels)
    (tiles : List Tile) : (source.strayed tiles).Nodup := by
  -- The index lists no label twice, and the ones left out are some of its labels.
  rw [strayed, indexed]
  exact List.Nodup.sublist (List.Sublist.map _ List.filter_sublist) LabelIndex.nodup_labels

/-- What was discovered and is not code ends where its range does. -/
theorem Describes.kind_of_stopAt_lt {offset : Nat} {segment : Segment}
    (described : source.Describes offset segment)
    (longer : source.stopAt offset < offset + segment.size source.options.width) :
    segment.kind = .code := by
  have inside := lt_stopAt described.inside
  obtain ⟨labels, content⟩ := segment
  cases content with
  | code instructions => rfl
  | data bytes =>
    -- Data is what the range holds.
    have read : bytes = _ := described.reads
    have size : (source.slice offset (source.stopAt offset)).length = _ :=
      source.slice_length (source.stopAt_le offset)
    rw [← read] at size
    simp only [Segment.size, Content.size, size] at longer
    omega
  | text value stored =>
    -- A text is stored with the size of its range.
    obtain ⟨rfl, -⟩ := described.reads
    simp only [Segment.size, Content.size, Option.getD_some] at longer
    omega

variable {labels : LabelTable} {state : Discovery}

/-- A segment of a tiling carries the labels that the table puts at its offset. -/
theorem mem_labels_tileAt (indexed : source.index = .ofTable labels) (sound : state.Sound source)
    (offset : Nat) (label : Label) :
    label ∈ ((source.tileAt state.segments offset).segment.addLabels
        (source.index.labelsAt offset)).labels ↔
      labels.offset? label = some offset := by
  rw [Segment.addLabels, LabelSet.mem_union, indexed, LabelIndex.mem_labelsAt]
  refine ⟨fun carried => carried.elim (fun before => ?_) id, .inr⟩
  -- What the segment carried before points there as well.
  rcases tileAt_cases source state.segments offset with ⟨segment, found, tile, -⟩ | tile
  · rw [tile] at before
    have placed := (sound offset segment found).placed label before
    rwa [indexed, LabelIndex.offset?_ofTable] at placed
  · rw [tile, gapSegment_labels, indexed] at before
    exact LabelIndex.mem_labelsAt.mp before

/-- As many segments carry a label as start at its offset. -/
theorem carriers_labelled (indexed : source.index = .ofTable labels) (sound : state.Sound source)
    {tiles : List Tile} (tiled : source.Tiled state.segments 0 tiles) {label : Label} {offset : Nat}
    (given : labels.offset? label = some offset) :
    (source.labelled tiles).carriers label = (tiles.map (·.offset)).count offset := by
  rw [Script.carriers, labelled, List.countP_map, List.count, List.countP_map]
  -- A tile carries the label exactly if it starts at the label's offset.
  refine List.countP_congr fun tile listed => ?_
  have carried := mem_labels_tileAt indexed sound tile.offset label
  rw [← (tiled.of_mem listed).1, given, Option.some.injEq] at carried
  simp only [Function.comp_apply, List.contains_iff_mem, beq_iff_eq]
  rw [carried, eq_comm]

/-- A label inside a tiling at which no segment starts is inside code that was discovered. -/
theorem swallowed_of_covers (indexed : source.index = .ofTable labels) (sound : state.Sound source)
    {tiles : List Tile} (tiled : source.Tiled state.segments 0 tiles) {label : Label} {offset : Nat}
    (given : labels.offset? label = some offset) (inside : offset < source.bytes.length)
    (apart : offset ∉ tiles.map (·.offset)) :
    ∃ tile ∈ tiles, ∃ segment, state.segments.find? tile.offset = some segment ∧
      tile.segment = segment ∧ segment.kind = .code ∧ tile.offset < offset ∧
        offset < tile.offset + segment.size source.options.width := by
  -- Some tile covers the label, and starts before it.
  obtain ⟨tile, listed, after, before⟩ := tiled.covers (Nat.zero_le offset) inside
  have strictly : tile.offset < offset := by
    refine Nat.lt_of_le_of_ne after fun same => apart ?_
    exact List.mem_map.mpr ⟨tile, listed, same⟩
  -- The range at the segment's offset ends at the label or before.
  have stop : source.stopAt tile.offset ≤ offset := by
    rw [stopAt, indexed]
    exact LabelIndex.rangeEnd_le_of_lt given strictly
  have made := (tiled.of_mem listed).1
  rcases tileAt_cases source state.segments tile.offset with ⟨segment, found, here, -⟩ | here
  -- Discovered data and texts end with their ranges, so that only code goes on.
  · rw [here] at made
    have same : tile.segment = segment := congrArg Tile.segment made
    rw [same] at before
    have code := (sound tile.offset segment found).kind_of_stopAt_lt (by omega)
    exact ⟨tile, listed, segment, found, same, code, strictly, before⟩
  -- What fills a gap ends with its range, too.
  · rw [here] at made
    rw [congrArg Tile.segment made, gapSegment_size] at before
    omega

end Source

/-- Every label is accounted for.

The segments of a parse, strict or lenient, carry exactly the labels at their offsets. Each label
with a place is carried by one segment or warned about once, and one that is warned about is beyond
the script or strictly inside labelled code that was discovered. -/
theorem labelsAccounted_of_parse {bytes : List UInt8} {labels : LabelTable} {entries : List Label}
    {opcodes : OpcodeTable} {options : ParseOptions} {script : Script} {problems : List Problem}
    (parsed : (parse bytes labels entries opcodes options).1 = .ok ⟨some script, problems⟩) :
    LabelsAccounted ⟨bytes, .ofTable labels, opcodes, options⟩ labels entries script problems := by
  -- A parse is a discovery, and the tiling of what was discovered.
  obtain ⟨passes, state, run, made⟩ := parse_eq_ok.mp parsed
  generalize known : (⟨bytes, .ofTable labels, opcodes, options⟩ : Source) = source at run made ⊢
  have indexed : source.index = .ofTable labels := by rw [← known]
  obtain ⟨rfl, rfl, -⟩ := Source.assemble_eq_some made
  have sound := sound_of_runDiscovery run
  have tiled := source.tiled_tiles state.segments
  generalize source.tiles state.segments = tiles at tiled
  have warned := Source.strayWarnings_problems (accounts_of_runDiscovery run) tiles
    source.bytes.length (tiles.map (·.segment.size source.options.width)).sum
  refine ⟨?_, ?_, ?_⟩
  -- Every segment carries what the table puts at its offset.
  · intro start segment listed label
    rw [tiled.placed_labelled] at listed
    obtain ⟨tile, inside, same⟩ := List.mem_map.mp listed
    obtain ⟨rfl, rfl⟩ := Prod.mk.inj same
    rw [← Source.mem_labels_tileAt indexed sound, ← (tiled.of_mem inside).1]
  -- Tiles start at different offsets, and no label is left out twice.
  · intro label offset given
    rw [warned, Source.carriers_labelled indexed sound tiled given,
      (Source.nodup_strayed indexed tiles).count, tiled.nodup_offsets.count]
    by_cases here : offset ∈ tiles.map (·.offset)
    · have kept : label ∉ source.strayed tiles := by
        intro left
        obtain ⟨other, again, apart⟩ := (Source.mem_strayed indexed).mp left
        rw [given, Option.some.injEq] at again
        exact apart (again ▸ here)
      exact .inl ⟨if_pos here, if_neg kept⟩
    · have left := (Source.mem_strayed indexed).mpr ⟨offset, given, here⟩
      exact .inr ⟨if_neg here, if_pos left⟩
  -- A label that is left out is beyond the tiles or inside one of them.
  · intro label positive
    rw [warned, List.count_pos_iff] at positive
    obtain ⟨offset, given, apart⟩ := (Source.mem_strayed indexed).mp positive
    refine ⟨offset, given, ?_⟩
    by_cases inside : offset < source.bytes.length
    · obtain ⟨tile, listed, segment, found, same, code, after, before⟩ :=
        Source.swallowed_of_covers indexed sound tiled given inside apart
      subst same
      refine .inr ⟨tile.offset, tile.segment.addLabels (source.index.labelsAt tile.offset), ?_,
        code, ?_, ⟨passes, state, tile.segment, run, found, rfl⟩, after, before⟩
      · rw [tiled.placed_labelled]
        exact List.mem_map.mpr ⟨tile, listed, rfl⟩
      · -- What was discovered had a label before all of them were put on it.
        obtain ⟨label, carried⟩ := List.exists_mem_of_ne_nil _
          (sound tile.offset tile.segment found).labelled
        exact List.ne_nil_of_mem (LabelSet.mem_union.mpr (.inl carried))
    · exact .inl (Nat.le_of_not_lt inside)

/-- One instruction, with a label at its start, one inside it, one without a place and one beyond. -/
def letiBytes : List UInt8 := [0x09, 3, 7, 0, 0, 0]

/-- The labels of the instruction. -/
def letiLabels : LabelTable := [0, 3, noOffset, 100]

/-- What is read from the instruction. -/
def letiScript : Script :=
  ⟨[⟨[0], .code [{ opcode := OpcodeTable.standard.get Code.leti, args := [.int 3, .int 7] }]⟩]⟩

/-- What is reported about the instruction. -/
def letiProblems : List Problem :=
  [⟨.warning, "Label 1 doesn't point to anything.",
      "Label 1 with offset 3 doesn't point to anything."⟩,
    ⟨.warning, "Label 3 doesn't point to anything.",
      "Label 3 with offset 100 doesn't point to anything."⟩]

/-- The instruction is read, with a warning for each of the labels that it does not carry. -/
theorem parse_letiBytes :
    (parse letiBytes letiLabels [0] .standard {}).1 = .ok ⟨some letiScript, letiProblems⟩ := by
  cbv

/-- The labels of the instruction are accounted for. -/
theorem labelsAccounted_letiBytes :
    (parse letiBytes letiLabels [0] .standard {}).1 = .ok ⟨some letiScript, letiProblems⟩ ∧
      LabelsAccounted ⟨letiBytes, .ofTable letiLabels, .standard, {}⟩ letiLabels [0] letiScript
        letiProblems :=
  ⟨parse_letiBytes, labelsAccounted_of_parse parse_letiBytes⟩

end QuestScript
