import Mathlib
import QuestScript.Parse
import QuestScript.Proofs.Classify
import QuestScript.Proofs.Discovery.Invariant

/-! Tilings: the segments of a script follow each other without a gap, and none of them is empty. -/

namespace QuestScript

/-- The segments of a script with their offsets. -/
def Script.placed (width : CharWidth) (script : Script) : List (Nat × Segment) :=
  (script.offsets width).zip script.segments

/-- A segment of code has instructions. -/
theorem Segment.content_of_code {segment : Segment} (code : segment.kind = .code) :
    ∃ instructions, segment.content = .code instructions := by
  obtain ⟨labels, content⟩ := segment
  -- Data and texts are not code.
  cases content with
  | code instructions => exact ⟨instructions, rfl⟩
  | data bytes => cases code
  | text value stored => cases code

namespace Source

/-- The bytes of a range inside the script. -/
theorem slice_length (source : Source) {start stop : Nat} (inside : stop ≤ source.bytes.length) :
    (source.slice start stop).length = stop - start := by
  rw [slice, List.length_drop, List.length_take, Nat.min_eq_left inside]

/-- After an offset comes a range, and then what is left of the script. -/
theorem drop_eq_slice (source : Source) {start stop : Nat} (ordered : start ≤ stop)
    (inside : stop ≤ source.bytes.length) :
    source.bytes.drop start = source.slice start stop ++ source.bytes.drop stop := by
  -- What comes before the end of the range is cut at its start.
  rw [slice, ← List.drop_append_of_le_length, List.take_append_drop]
  rw [List.length_take]
  omega

/-- The bytes of a range are those of the script. -/
theorem getElem?_slice (source : Source) (offset size place : Nat) :
    (source.slice offset (offset + size))[place]? =
      if place < size then source.bytes[offset + place]? else none := by
  rw [slice, List.getElem?_drop, List.getElem?_take]
  -- Beyond the range there is nothing, whatever the script goes on with.
  by_cases inside : place < size
  · rw [if_pos (by omega), if_pos inside]
  · rw [if_neg (by omega), if_neg inside]

/-- Instructions that a range is classified as fill it, and they are what it is decoded as. -/
theorem classifyGap_eq_ok {source : Source} {offset : Nat} {instructions : List Instruction}
    (found : source.classifyGap offset = .ok instructions) :
    decodeRange source.bytes offset (source.stopAt offset) source.opcodes source.options.width =
        .ok instructions ∧
      (Content.code instructions).size source.options.width = source.stopAt offset - offset := by
  -- Of all checks that instructions have to pass, the one of their size matters here.
  obtain ⟨run, filled, -⟩ := classify_eq_ok.mp found
  -- The size is compared with that of the range, which ends inside the script.
  have whole := source.stopAt_le offset
  rw [← stopAt, Nat.min_eq_left whole] at filled
  exact ⟨run, filled⟩

/-- A segment that fills a gap ends where the range does. -/
theorem gapSegment_size (source : Source) (offset : Nat) :
    (source.gapSegment offset).size source.options.width = source.stopAt offset - offset := by
  -- Instructions have been checked to fill the range, and data is cut to it.
  unfold gapSegment
  dsimp only
  split
  · rename_i instructions found
    exact (classifyGap_eq_ok found).2
  · exact source.slice_length (source.stopAt_le offset)

/-- A segment that fills a gap carries the labels that point there. -/
@[simp] theorem gapSegment_labels (source : Source) (offset : Nat) :
    (source.gapSegment offset).labels = source.index.labelsAt offset := by
  unfold gapSegment
  dsimp only
  -- A gap is filled with code or with data, and both carry the labels.
  split
  · rfl
  · rfl

/-- A segment that fills a gap is no text. -/
theorem gapSegment_kind (source : Source) (offset : Nat) :
    (source.gapSegment offset).kind ≠ .text := by
  unfold gapSegment
  dsimp only
  -- A gap is filled with code or with data.
  split
  · exact SegmentKind.noConfusion
  · exact SegmentKind.noConfusion

/-- A segment is either one that was discovered or one that fills a gap. -/
theorem tileAt_cases (source : Source) (segments : SegmentMap) (offset : Nat) :
    (∃ segment, segments.find? offset = some segment ∧
      source.tileAt segments offset = ⟨offset, segment, false⟩ ∧
        0 < segment.size source.options.width) ∨
      source.tileAt segments offset = ⟨offset, source.gapSegment offset, true⟩ := by
  -- What was discovered but is empty is passed over, as if it was not there.
  unfold tileAt
  split
  · rename_i segment found
    split
    · rename_i positive
      exact .inl ⟨segment, found, rfl, positive⟩
    · exact .inr rfl
  · exact .inr rfl

/-- What was discovered is taken unless it is empty. -/
theorem tileAt_of_find? {source : Source} {segments : SegmentMap} {offset : Nat} {segment : Segment}
    (found : segments.find? offset = some segment)
    (positive : 0 < segment.size source.options.width) :
    source.tileAt segments offset = ⟨offset, segment, false⟩ := by
  simp only [tileAt, found, positive, if_true]

/-- A gap is filled where nothing was discovered. -/
theorem tileAt_of_none {source : Source} {segments : SegmentMap} {offset : Nat}
    (absent : segments.find? offset = none) :
    source.tileAt segments offset = ⟨offset, source.gapSegment offset, true⟩ := by
  simp only [tileAt, absent]

/-- A segment is where it was looked for. -/
@[simp] theorem tileAt_offset (source : Source) (segments : SegmentMap) (offset : Nat) :
    (source.tileAt segments offset).offset = offset := by
  rcases tileAt_cases source segments offset with ⟨segment, -, tile, -⟩ | tile <;> rw [tile]

/-- No segment is empty. -/
theorem tileAt_size_pos {source : Source} (segments : SegmentMap) {offset : Nat}
    (inside : offset < source.bytes.length) :
    0 < (source.tileAt segments offset).segment.size source.options.width := by
  rcases tileAt_cases source segments offset with ⟨segment, -, tile, positive⟩ | tile
  · rw [tile]
    exact positive
  -- What fills a gap reaches to the end of a range that is not empty.
  · rw [tile, gapSegment_size]
    have some := lt_stopAt inside
    omega

/-- Segments that follow each other from an offset to the end. -/
inductive Tiled (source : Source) (segments : SegmentMap) : Nat → List Tile → Prop where
  | done {offset : Nat} (past : source.bytes.length ≤ offset) : Tiled source segments offset []
  | next {offset : Nat} {rest : List Tile} (inside : offset < source.bytes.length)
    (others : Tiled source segments
      (offset + (source.tileAt segments offset).segment.size source.options.width) rest) :
    Tiled source segments offset (source.tileAt segments offset :: rest)

/-- There are enough steps to get to the end. -/
theorem tiled_tilesFrom (source : Source) (segments : SegmentMap) {steps offset : Nat}
    (enough : source.bytes.length ≤ offset + steps) :
    source.Tiled segments offset (source.tilesFrom segments steps offset) := by
  -- Every tile has a byte at least, so that as many steps as bytes are enough.
  induction steps generalizing offset with
  | zero => exact .done enough
  | succ steps ih =>
    unfold tilesFrom
    split
    · rename_i past
      exact .done past
    · rename_i inside
      have inside := Nat.lt_of_not_le inside
      have positive := tileAt_size_pos segments inside
      exact .next inside (ih (by omega))

/-- The segments of a parse follow each other from the start to the end. -/
theorem tiled_tiles (source : Source) (segments : SegmentMap) :
    source.Tiled segments 0 (source.tiles segments) :=
  tiled_tilesFrom source segments (by omega)

namespace Tiled

variable {source : Source} {segments : SegmentMap} {start : Nat} {tiles : List Tile}

/-- There is only one way to go from segment to segment. -/
theorem unique {others : List Tile} (tiled : source.Tiled segments start tiles)
    (again : source.Tiled segments start others) : tiles = others := by
  -- Whether there is another tile, and which one, depends on the offset alone.
  induction tiled generalizing others with
  | done past =>
    cases again with
    | done => rfl
    | next inside => omega
  | next inside rest ih =>
    cases again with
    | done past => omega
    | next _ more => rw [ih more]

/-- Another script with the same segments has the same tiling. -/
theorem transfer {second : Source} {others : SegmentMap}
    (tiled : source.Tiled segments start tiles) (options : second.options = source.options)
    (size : second.bytes.length = source.bytes.length)
    (same : ∀ tile ∈ tiles, second.tileAt others tile.offset = tile) :
    second.Tiled others start tiles := by
  induction tiled with
  | done past => exact .done (by omega)
  | @next offset rest inside more ih =>
    -- The same tile is found first, so that the others start at the same offset.
    have first := same _ List.mem_cons_self
    have later := ih fun tile listed => same tile (List.mem_cons_of_mem _ listed)
    rw [tileAt_offset] at first
    rw [← first, ← options] at later
    rw [← first]
    exact .next (by omega) later

/-- Every segment is the one at its offset, which is inside the script. -/
theorem of_mem (tiled : source.Tiled segments start tiles) {tile : Tile} (listed : tile ∈ tiles) :
    tile = source.tileAt segments tile.offset ∧ start ≤ tile.offset ∧
      tile.offset < source.bytes.length := by
  -- Tiles only ever come later.
  induction tiled with
  | done past => cases listed
  | next inside rest ih =>
    rcases List.mem_cons.mp listed with rfl | later
    · rw [tileAt_offset]
      exact ⟨rfl, Nat.le_refl _, inside⟩
    · obtain ⟨same, after, before⟩ := ih later
      exact ⟨same, by omega, before⟩

/-- Segments are at the offsets that their sizes add up to. -/
theorem offsets_eq (tiled : source.Tiled segments start tiles) :
    startsFrom start (tiles.map (·.segment.size source.options.width)) =
      tiles.map (·.offset) := by
  -- Each tile starts where those before it end.
  induction tiled with
  | done past => rfl
  | next inside rest ih => rw [List.map_cons, startsFrom, ih, List.map_cons, tileAt_offset]

/-- Every place is in a segment. -/
theorem covers (tiled : source.Tiled segments start tiles) {place : Nat} (after : start ≤ place)
    (before : place < source.bytes.length) :
    ∃ tile ∈ tiles, tile.offset ≤ place ∧
      place < tile.offset + tile.segment.size source.options.width := by
  induction tiled with
  | done past => omega
  | @next offset rest inside others ih =>
    -- The first tile covers the place, or the place is in what the others cover.
    by_cases here : place < offset +
        (source.tileAt segments offset).segment.size source.options.width
    · exact ⟨_, List.mem_cons_self, by rw [tileAt_offset]; exact after,
        by rw [tileAt_offset]; exact here⟩
    · obtain ⟨tile, listed, found⟩ := ih (by omega)
      exact ⟨tile, List.mem_cons_of_mem _ listed, found⟩

/-- No two segments overlap. -/
theorem disjoint (tiled : source.Tiled segments start tiles) {a b : Tile} (firstListed : a ∈ tiles)
    (secondListed : b ∈ tiles) (after : a.offset ≤ b.offset)
    (before : b.offset < a.offset + a.segment.size source.options.width) : a = b := by
  -- The first of both tiles is the first of all or comes later, and so does the second.
  induction tiled with
  | done past => cases firstListed
  | @next offset rest inside others ih =>
    have positive := tileAt_size_pos segments inside
    rcases List.mem_cons.mp firstListed with rfl | firstLater
    · rcases List.mem_cons.mp secondListed with rfl | secondLater
      · rfl
      · -- What comes later starts where the first segment ends or beyond.
        have beyond := (others.of_mem secondLater).2.1
        rw [tileAt_offset] at before
        omega
    · rcases List.mem_cons.mp secondListed with rfl | secondLater
      -- The second tile would start before the first one of all ends.
      · have beyond := (others.of_mem firstLater).2.1
        rw [tileAt_offset] at after
        omega
      · exact ih firstLater secondLater

/-- A segment ends where all of them do or before. -/
theorem end_le (tiled : source.Tiled segments start tiles) {tile : Tile} (listed : tile ∈ tiles) :
    tile.offset + tile.segment.size source.options.width ≤
      start + (tiles.map (·.segment.size source.options.width)).sum := by
  induction tiled with
  | done past => cases listed
  | next inside rest ih =>
    rw [List.map_cons, List.sum_cons]
    -- The segment is the first one, or one of those behind it.
    rcases List.mem_cons.mp listed with rfl | later
    · rw [tileAt_offset]
      omega
    · have bound := ih later
      omega

/-- Segments are at different offsets. -/
theorem nodup_offsets (tiled : source.Tiled segments start tiles) :
    (tiles.map (·.offset)).Nodup := by
  induction tiled with
  | done past => exact List.nodup_nil
  | next inside rest ih =>
    rw [List.map_cons, List.nodup_cons, tileAt_offset]
    refine ⟨fun found => ?_, ih⟩
    obtain ⟨tile, listed, same⟩ := List.mem_map.mp found
    -- A later tile starts beyond the first, which is not empty.
    have positive := tileAt_size_pos segments inside
    have beyond := (rest.of_mem listed).2.1
    omega

/-- The script of a tiling has its segments at their offsets. -/
theorem placed_labelled (tiled : source.Tiled segments 0 tiles) :
    (source.labelled tiles).placed source.options.width = tiles.map fun tile =>
      (tile.offset, tile.segment.addLabels (source.index.labelsAt tile.offset)) := by
  -- Labels make no difference to sizes, and so none to offsets.
  have sizes : (source.labelled tiles).segments.map (·.size source.options.width) =
      tiles.map (·.segment.size source.options.width) := by
    rw [labelled, List.map_map]
    rfl
  rw [Script.placed, Script.offsets, sizes, tiled.offsets_eq, labelled, List.zip_map']

end Tiled

/-- A parse that has a value has discovered something, and its script is the tiling of that. -/
theorem assemble_eq_some {source : Source} {state : Discovery} {script : Script}
    {problems : List Problem} (made : (source.assemble state).1 = ⟨some script, problems⟩) :
    script = source.labelled (source.tiles state.segments) ∧
      problems = state.problems ++ (source.strayLabels (source.tiles state.segments) ++
        sizeProblem source.bytes.length
          ((source.tiles state.segments).map (·.segment.size source.options.width)).sum) ∧
      (source.options.lenient = false →
        ((source.tiles state.segments).map (·.segment.size source.options.width)).sum =
          source.bytes.length) := by
  simp only [assemble, Outcome.mk.injEq] at made
  obtain ⟨value, rfl⟩ := made
  split at value
  · cases value
  · rename_i passed
    refine ⟨(Option.some.inj value).symm, rfl, fun strict => ?_⟩
    -- Another size is an error, with which a strict parse has no value.
    simp only [strict, Bool.not_false, Bool.and_true, Bool.or_eq_true, not_or, Bool.not_eq_true,
      Bool.not_eq_false', List.isEmpty_iff] at passed
    have fits := passed.2
    unfold sizeProblem at fits
    split at fits
    · assumption
    · cases fits

end Source

/-- A parse with a value has discovered something and assembled it. -/
theorem parse_eq_ok {bytes : List UInt8} {labels : LabelTable} {entries : List Label}
    {opcodes : OpcodeTable} {options : ParseOptions} {outcome : Outcome Script} :
    (parse bytes labels entries opcodes options).1 = .ok outcome ↔
      ∃ passes state, runDiscovery ⟨bytes, .ofTable labels, opcodes, options⟩ entries {} =
          .ok passes state ∧
        (Source.assemble ⟨bytes, .ofTable labels, opcodes, options⟩ state).1 = outcome := by
  -- A discovery that fails is a parse that fails.
  unfold parse
  dsimp only
  split
  · rename_i failure state run
    constructor
    · intro parsed
      cases parsed
    · rintro ⟨passes, last, again, -⟩
      cases run.symm.trans again
  · rename_i passes state run
    constructor
    · intro parsed
      exact ⟨passes, state, run, Except.ok.inj parsed⟩
    · rintro ⟨again, last, same, made⟩
      cases run.symm.trans same
      exact congrArg Except.ok made

end QuestScript
