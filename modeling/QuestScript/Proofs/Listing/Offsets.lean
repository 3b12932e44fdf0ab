import QuestScript.Listing
import QuestScript.Proofs.Script.Parts

/-! Listings show where the parts of a script are written.

JSON, lines of JSON and tables each count offsets from the sizes of segments and instructions, while
writing puts bytes behind bytes. Every offset and every size that they give is that of the bytes. -/

namespace QuestScript

namespace Json

/-- The value of a field of an object. -/
def field? (value : Json) (key : String) : Option Json :=
  match value with
  | object fields => fields.lookup key
  | _ => none

/-- The offsets that the JSON of a segment gives: those of its instructions if it has a list of
them, and its own if not. -/
def starts (segment : Json) : List (Option Json) :=
  match segment.field? "instructions" with
  | some (array items) => items.map (·.field? "offset")
  | _ => [segment.field? "offset"]

/-- Values are sorted one by one. -/
theorem sortedItems_eq_map (items : List Json) : sortedItems items = items.map sorted := by
  induction items with
  | nil => rfl
  | cons item items ih => rw [sortedItems, ih, List.map_cons]

/-- Fields are sorted one by one. -/
theorem sortedFields_eq_map (fields : List (String × Json)) :
    sortedFields fields = fields.map fun field => (field.1, field.2.sorted) := by
  induction fields with
  | nil => rfl
  | cons field fields ih => rw [sortedFields, ih, List.map_cons]

/-- Under keys that differ, a value is found exactly if it is listed. -/
theorem lookup_eq_some_iff_mem {fields : List (String × Json)}
    (apart : (fields.map (·.1)).Nodup) {key : String} {value : Json} :
    fields.lookup key = some value ↔ (key, value) ∈ fields := by
  induction fields with
  | nil => simp
  | cons field fields ih =>
    obtain ⟨name, first⟩ := field
    rw [List.map_cons, List.nodup_cons] at apart
    rw [lookup_cons_eq_ite, List.mem_cons, Prod.mk.injEq]
    split
    · rename_i same
      subst same
      -- No other field has the name.
      have only : (key, value) ∉ fields := by
        intro listed
        exact apart.1 (List.mem_map.mpr ⟨_, listed, rfl⟩)
      simp only [Option.some.injEq, true_and, only, or_false]
      exact eq_comm
    · rename_i other
      rw [ih apart.2]
      simp [other]

/-- Sorting the fields of an object changes no field. -/
theorem field?_sorted {fields : List (String × Json)} (apart : (fields.map (·.1)).Nodup)
    (key : String) :
    (object fields).sorted.field? key = ((object fields).field? key).map sorted := by
  -- Sorting moves fields about, and under keys that differ their order does not matter.
  have shuffled := List.mergeSort_perm (sortedFields fields) fun a b => decide (a.1 ≤ b.1)
  have names : (sortedFields fields).map (·.1) = fields.map (·.1) := by
    rw [sortedFields_eq_map, List.map_map]
    rfl
  have still := (shuffled.map (·.1)).nodup_iff.mpr (names ▸ apart)
  ext value
  rw [sorted, field?, field?, lookup_eq_some_iff_mem still, shuffled.mem_iff, sortedFields_eq_map,
    Option.map_eq_some_iff]
  simp only [lookup_eq_some_iff_mem apart, List.mem_map, Prod.mk.injEq, Prod.exists]
  constructor
  · rintro ⟨name, inner, listed, rfl, rfl⟩
    exact ⟨inner, listed, rfl⟩
  · rintro ⟨inner, listed, rfl⟩
    exact ⟨key, inner, listed, rfl, rfl⟩

/-- The JSON of a segment gives an offset and a size, and the offsets of its parts. -/
structure Shows (value : Json) (span : Span) (parts : List Span) : Prop where
  offset : value.field? "offset" = some (int span.offset)
  size : value.field? "size" = some (int span.size)
  starts : value.starts = parts.map fun part => some (int part.offset)

/-- The JSON of segments gives the ranges of the segments and the offsets of their parts. -/
structure ShowsAll (values : List Json) (wholes parts : List Span) : Prop where
  wholes : (values.map fun value => (value.field? "offset", value.field? "size")) =
    wholes.map fun span => (some (int span.offset), some (int span.size))
  starts : values.flatMap starts = parts.map fun part => some (int part.offset)

end Json

section

variable {width : CharWidth}

/-- Parts start where their ranges do. -/
theorem startsFrom_eq_map (start : Nat) (sizes : List Nat) :
    startsFrom start sizes = (spansFrom start sizes).map (·.offset) := by
  induction sizes generalizing start with
  | nil => rfl
  | cons size sizes ih => rw [startsFrom, ih, spansFrom, List.map_cons]

/-- Instructions behind the first are placed behind it. -/
theorem placedInstructions_cons {start : Nat} {instruction : Instruction}
    {instructions : List Instruction} :
    placedInstructions width start (instruction :: instructions) =
      (start, instruction) ::
        placedInstructions width (start + instruction.size width) instructions := rfl

/-- Instructions are placed where their ranges start. -/
theorem map_fst_placedInstructions (start : Nat) (instructions : List Instruction) :
    (placedInstructions width start instructions).map (·.1) =
      (spansFrom start (instructions.map (·.size width))).map (·.offset) := by
  -- There is a start for each instruction, so none is left out.
  rw [placedInstructions, ← startsFrom_eq_map]
  exact List.map_fst_zip (by rw [length_startsFrom, List.length_map])

/-- Values that give the offsets of instructions give those of their ranges. -/
theorem starts_of_placed {make : Nat × Instruction → Json}
    (gives : ∀ placed, (make placed).field? "offset" = some (.int placed.1))
    (start : Nat) (instructions : List Instruction) :
    ((placedInstructions width start instructions).map make).map (·.field? "offset") =
      (spansFrom start (instructions.map (·.size width))).map fun span =>
        some (.int span.offset) := by
  -- Each value gives the place that the instruction was given.
  have each : (Json.field? · "offset") ∘ make = (fun offset : Nat => some (.int offset)) ∘ (·.1) :=
    funext gives
  rw [List.map_map, each, ← List.map_map, map_fst_placedInstructions, List.map_map]
  rfl

/-- The JSON of an instruction gives its offset. -/
theorem Instruction.field?_toJson (offset : Nat) (instruction : Instruction) :
    (instruction.toJson offset).field? "offset" = some (.int offset) := by
  simp [toJson, Json.field?]

/-- The JSON of an instruction gives its offset, also with sorted fields. -/
theorem Instruction.field?_sorted_toJson (offset : Nat) (instruction : Instruction) :
    (instruction.toJson offset).sorted.field? "offset" = some (.int offset) := by
  rw [toJson, Json.field?_sorted (by simp), ← toJson, field?_toJson]
  simp [Json.sorted]

namespace Segment

/-- The names of the fields of a segment differ. -/
theorem nodup_jsonFields (offset : Nat) (segment : Segment) :
    ∃ fields, segment.toJson width offset = .object fields ∧ (fields.map (·.1)).Nodup := by
  obtain ⟨labels, content⟩ := segment
  -- The content adds one field, whose name is another one.
  refine ⟨_, rfl, ?_⟩
  cases content with
  | code instructions => simp [Content.toJsonField]
  | data bytes => simp [Content.toJsonField]
  | text value stored => simp [Content.toJsonField]

/-- Sorting changes no field of a segment. -/
theorem field?_sorted_toJson (offset : Nat) (segment : Segment) (key : String) :
    (segment.toJson width offset).sorted.field? key =
      ((segment.toJson width offset).field? key).map Json.sorted := by
  -- No name stands twice among the fields, so that their order does not matter.
  obtain ⟨fields, made, apart⟩ := @nodup_jsonFields width offset segment
  rw [made, Json.field?_sorted apart]

/-- The JSON of a segment gives its range. -/
theorem field?_toJson (offset : Nat) (segment : Segment) :
    (segment.toJson width offset).field? "offset" = some (.int offset) ∧
      (segment.toJson width offset).field? "size" = some (.int (segment.size width)) := by
  simp [toJson, Json.field?, lookup_cons_eq_ite]

/-- Only the JSON of code has a list of instructions. -/
theorem field?_instructions (offset : Nat) (segment : Segment) :
    (segment.toJson width offset).field? "instructions" =
      match segment.content with
      | .code instructions => some (.array ((placedInstructions width offset instructions).map
          fun placed => placed.2.toJson placed.1))
      | _ => none := by
  obtain ⟨labels, content⟩ := segment
  -- The field of the content has another name for data and for text.
  cases content with
  | code instructions => simp [toJson, Json.field?, lookup_cons_eq_ite, Content.toJsonField]
  | data bytes => simp [toJson, Json.field?, lookup_cons_eq_ite, Content.toJsonField]
  | text value stored => simp [toJson, Json.field?, lookup_cons_eq_ite, Content.toJsonField]

/-- The JSON of a segment gives its range and the offsets of its parts. -/
theorem shows_toJson (offset : Nat) (segment : Segment) :
    (segment.toJson width offset).Shows ⟨offset, segment.size width⟩
      (spansFrom offset (segment.partSizes width)) := by
  obtain ⟨start, size⟩ := @field?_toJson width offset segment
  refine ⟨start, size, ?_⟩
  have list := @field?_instructions width offset segment
  unfold Json.starts
  rw [list, start]
  obtain ⟨labels, content⟩ := segment
  -- Code gives the offset of each instruction, and all else only its own.
  cases content with
  | code instructions =>
    exact starts_of_placed (fun placed => placed.2.field?_toJson placed.1) offset instructions
  | data bytes => rfl
  | text value stored => rfl

/-- The JSON of a segment gives the same with sorted fields. -/
theorem shows_sorted_toJson (offset : Nat) (segment : Segment) :
    (segment.toJson width offset).sorted.Shows ⟨offset, segment.size width⟩
      (spansFrom offset (segment.partSizes width)) := by
  obtain ⟨start, size⟩ := @field?_toJson width offset segment
  have list := @field?_instructions width offset segment
  -- Sorting leaves the fields that are looked up, and sorts what is in them.
  refine ⟨?_, ?_, ?_⟩
  · rw [field?_sorted_toJson, start]
    simp [Json.sorted]
  · rw [field?_sorted_toJson, size]
    simp [Json.sorted]
  · unfold Json.starts
    rw [field?_sorted_toJson, field?_sorted_toJson, list, start]
    obtain ⟨labels, content⟩ := segment
    cases content with
    | code instructions =>
      -- The fields of each instruction are sorted as well, and still give its offset.
      have placed := @starts_of_placed width (fun placed => (placed.2.toJson placed.1).sorted)
        (fun placed => placed.2.field?_sorted_toJson placed.1) offset instructions
      simp only [Option.map_some, Json.sorted, Json.sortedItems_eq_map, List.map_map] at placed ⊢
      exact placed
    | data bytes => simp [Json.sorted, partSizes, spansFrom]
    | text value stored => simp [Json.sorted, partSizes, spansFrom]

/-- The parts of a segment have its size together. -/
theorem sum_partSizes (segment : Segment) :
    (segment.partSizes width).sum = segment.size width := by
  obtain ⟨labels, content⟩ := segment
  cases content with
  | code instructions => rfl
  -- Data and texts are a single part.
  | data bytes => simp [partSizes]
  | text value stored => simp [partSizes]

end Segment

/-- Where the JSON of each segment gives its range and parts, that of all segments does. -/
theorem showsAll_segments {make : Nat × Segment → Json}
    (gives : ∀ placed, (make placed).Shows ⟨placed.1, placed.2.size width⟩
      (spansFrom placed.1 (placed.2.partSizes width))) (start : Nat) (segments : List Segment) :
    Json.ShowsAll (((startsFrom start (segments.map (·.size width))).zip segments).map make)
      (spansFrom start (segments.map (·.size width)))
      (spansFrom start (segments.flatMap (·.partSizes width))) := by
  induction segments generalizing start with
  | nil => exact ⟨rfl, rfl⟩
  | cons segment segments ih =>
    -- The next segment starts where this one ends, and its parts where the parts of this one end.
    obtain ⟨wholes, starts⟩ := ih (start + segment.size width)
    obtain ⟨offset, size, parts⟩ := gives (start, segment)
    constructor
    · simp only [List.map_cons, startsFrom, List.zip_cons_cons, spansFrom, offset, size, wholes]
    · simp only [List.map_cons, startsFrom, List.zip_cons_cons, List.flatMap_cons, starts, parts,
        spansFrom_append, Segment.sum_partSizes, List.map_append]

/-- A field of a row, by the name of its column. -/
def csvField? (row : List String) (column : String) : Option String :=
  (csvHeader.zip row).lookup column

/-- Rows give the offsets and sizes of ranges. -/
def RowsShow (rows : List (List String)) (spans : List Span) : Prop :=
  (rows.map fun row => (csvField? row "offset", csvField? row "size")) =
    spans.map fun span => (some (toString span.offset), some (toString span.size))

/-- A row gives the offset and the size that it is made of. -/
theorem csvField?_csvRow {number offset size : Nat} {kind : SegmentKind} {labels : LabelSet}
    {mnemonic operands : String} :
    csvField? (csvRow number kind labels offset size mnemonic operands) "offset" =
        some (toString offset) ∧
      csvField? (csvRow number kind labels offset size mnemonic operands) "size" =
        some (toString size) := by
  simp [csvField?, csvRow, csvHeader, lookup_cons_eq_ite]

/-- The rows of code give the ranges of its instructions. -/
theorem rowsShow_codeRows (number : Nat) (labels : LabelSet) (start : Nat)
    (instructions : List Instruction) :
    RowsShow (codeRows width number labels (placedInstructions width start instructions))
      (spansFrom start (instructions.map (·.size width))) := by
  induction instructions generalizing start labels with
  | nil => rfl
  | cons instruction instructions ih =>
    -- Only the first row has the labels, and each row starts where the one before it ends.
    have rest := ih [] (start + instruction.size width)
    unfold RowsShow at rest ⊢
    rw [placedInstructions_cons, codeRows, List.map_cons, rest]
    simp only [csvField?_csvRow, List.map_cons, spansFrom]

/-- The rows of a segment give the ranges of its parts. -/
theorem Segment.rowsShow_csvRows (number offset : Nat) (segment : Segment) :
    RowsShow (segment.csvRows width number offset)
      (spansFrom offset (segment.partSizes width)) := by
  obtain ⟨labels, content⟩ := segment
  cases content with
  | code instructions => exact rowsShow_codeRows number labels offset instructions
  -- Data and texts have a single row.
  | data bytes => simp [RowsShow, csvRows, partSizes, spansFrom, csvField?_csvRow]
  | text value stored => simp [RowsShow, csvRows, partSizes, spansFrom, csvField?_csvRow]

/-- The rows of segments give the ranges of their parts. -/
theorem rowsShow_segments (start number : Nat) (segments : List Segment) :
    RowsShow
      ((((startsFrom start (segments.map (·.size width))).zip segments).zipIdx number).flatMap
        fun ((offset, segment), number) => segment.csvRows width number offset)
      (spansFrom start (segments.flatMap (·.partSizes width))) := by
  induction segments generalizing start number with
  | nil => rfl
  | cons segment segments ih =>
    -- The next segment is numbered one higher, and starts where this one ends.
    have here := @Segment.rowsShow_csvRows width number start segment
    have rest := ih (start + segment.size width) (number + 1)
    unfold RowsShow at *
    simp only [List.map_cons, startsFrom, List.zip_cons_cons, List.zipIdx_cons, List.flatMap_cons,
      List.map_append, here, rest, spansFrom_append, Segment.sum_partSizes]

end

/-- The parts of all segments have their sizes together. -/
theorem sum_flatMap_partSizes (width : CharWidth) (segments : List Segment) :
    (segments.flatMap (·.partSizes width)).sum = (segments.map (·.size width)).sum := by
  induction segments with
  | nil => rfl
  | cons segment segments ih =>
    -- The parts of the first segment make up its size.
    rw [List.flatMap_cons, List.sum_append, Segment.sum_partSizes, ih, List.map_cons, List.sum_cons]

namespace Script

/-- Listings of a script show where it stands among the bytes that it is written in: its segments
in some ranges, and its parts in others. -/
structure Listed (width : CharWidth) (script : Script) (encoded : EncodedScript)
    (wholes parts : List Span) : Prop where
  /-- Each segment stands in its range. -/
  segments : List.Forall₂ (Part.StandsAt width encoded) (script.wholes width) wholes
  /-- Each instruction, and each segment that is no code, stands in its range. -/
  entries : List.Forall₂ (Part.StandsAt width encoded) (script.parts width) parts
  /-- JSON gives the number of all bytes, the ranges of the segments and where the parts start. -/
  json : script.render .json width = (script.toJson width).pretty ∧
    (script.toJson width).field? "size" = some (.int encoded.bytes.length) ∧
    ∃ values, (script.toJson width).field? "segments" = some (.array values) ∧
      Json.ShowsAll values wholes parts
  /-- So do the lines of JSON. -/
  jsonLines : ∃ lines, script.render .jsonLines width =
      String.join (lines.map fun line => line.compact ++ "\n") ∧ Json.ShowsAll lines wholes parts
  /-- The rows of a table give the ranges of the parts. -/
  csv : ∃ rows, script.render .csv width = Csv.tableText (csvHeader :: rows) ∧ RowsShow rows parts
  /-- The rows leave no byte out, and no two have one in common. -/
  tiled : Span.Tiles 0 encoded.bytes.length parts

/-- The JSON of a script has its size and its segments. -/
theorem field?_toJson (width : CharWidth) (script : Script) :
    (script.toJson width).field? "size" = some (.int (script.size width)) ∧
      (script.toJson width).field? "segments" = some (.array (script.segmentsToJson width)) := by
  simp [toJson, Json.field?, lookup_cons_eq_ite]

/-- A script with an argument for every parameter that needs one, once it can be written, is listed
with the offsets at which its parts are written and the sizes in which they are. -/
theorem listed_of_encode {width : CharWidth} {script : Script} {encoded : EncodedScript}
    (supplied : ∀ instruction ∈ script.instructions, instruction.Supplied)
    (written : script.encode width = .ok encoded) :
    ∃ wholes parts, script.Listed width encoded wholes parts := by
  have length := (laidOut_of_encode supplied written).size
  obtain ⟨size, segments⟩ := field?_toJson width script
  refine ⟨spansFrom 0 (script.segments.map (·.size width)),
    spansFrom 0 (script.segments.flatMap (·.partSizes width)), ?_, ?_, ?_, ?_, ?_, ?_⟩
  · -- A segment is its own only part here.
    rw [List.map_eq_flatMap]
    exact divides_whole.standsAt supplied written
  · exact divides_parts.standsAt supplied written
  · refine ⟨rfl, length ▸ size, _, segments, ?_⟩
    refine showsAll_segments ?_ 0 script.segments
    exact fun placed => placed.2.shows_toJson placed.1
  · -- The lines are the same segments with their fields sorted.
    refine ⟨(script.segmentsToJson width).map Json.sorted, ?_, ?_⟩
    · rw [List.map_map]
      rfl
    · rw [segmentsToJson, List.map_map]
      refine showsAll_segments ?_ 0 script.segments
      exact fun placed => placed.2.shows_sorted_toJson placed.1
  · exact ⟨script.csvRows width, rfl, rowsShow_segments 0 0 script.segments⟩
  · -- The parts end where the last segment does, which is where the bytes end.
    have tiled := tiles_spansFrom 0 (script.segments.flatMap (·.partSizes width))
    rw [sum_flatMap_partSizes, Nat.zero_add] at tiled
    rw [length, Script.size, ← List.sum_eq_foldr]
    exact tiled

/-- A jump, a string, data and a text that is cut short are listed where they are written. -/
theorem listed_jumpingTo :
    (jumpingTo 2).encode .wide = .ok
        ⟨[0x28, 0x02, 0x00, 0x4E, 0x37, 0x00, 0x00, 0x00, 0x01, 0x02, 0x03, 0x61, 0x00, 0x62, 0x00],
          [0, noOffset, 8]⟩ ∧
      ((jumpingTo 2).csvRows .wide).map (csvField? · "offset") =
        [some "0", some "3", some "8", some "11"] ∧
      ∃ wholes parts, (jumpingTo 2).Listed .wide
        ⟨[0x28, 0x02, 0x00, 0x4E, 0x37, 0x00, 0x00, 0x00, 0x01, 0x02, 0x03, 0x61, 0x00, 0x62, 0x00],
          [0, noOffset, 8]⟩ wholes parts :=
  ⟨by decide, by cbv, listed_of_encode (by decide) (by decide)⟩

end Script

end QuestScript
