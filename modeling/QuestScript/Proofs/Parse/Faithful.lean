import QuestScript.Proofs.Parse.Written

/-! Where a script that was read is written as it stood.

A text ends with its terminator, and what follows that is not kept. In code every string is written
with a terminator, also one that was too long to be read with it. -/

namespace QuestScript

/-- A byte of a script, as a place in one of its segments. -/
def Script.Locates (width : CharWidth) (script : Script) (position : Nat) (segment : Segment)
    (place : Nat) : Prop :=
  ∃ start, (start, segment) ∈ script.placed width ∧ place < segment.size width ∧
    position = start + place

/-- Whether a place in a segment comes after a text and its terminator. -/
def Segment.isPadding (width : CharWidth) (segment : Segment) (place : Nat) : Bool :=
  match segment.content with
  | .text value _ => width.textExtent value (segment.size width) ≤ place
  | _ => false

/-- Whether a place in a segment comes after a string of code that is too long to have been read with
its terminator. -/
def Segment.isAfterCut (width : CharWidth) (segment : Segment) (place : Nat) : Bool :=
  match segment.content with
  | .code instructions => (codeCut? width instructions).any (· ≤ place)
  | _ => false

/-- Only code has strings that are cut off. -/
theorem Segment.kind_of_isAfterCut {width : CharWidth} {segment : Segment} {place : Nat}
    (after : segment.isAfterCut width place = true) : segment.kind = .code := by
  obtain ⟨labels, content⟩ := segment
  -- Nothing is cut off in data and in texts.
  cases content with
  | code instructions => rfl
  | data bytes => cases after
  | text value stored => cases after

/-- No byte of code comes after a text. -/
theorem Segment.isPadding_of_code {width : CharWidth} {segment : Segment} (place : Nat)
    (code : segment.kind = .code) : segment.isPadding width place = false := by
  obtain ⟨instructions, content⟩ := Segment.content_of_code code
  simp only [isPadding, content]

/-- A byte of a script after a text and its terminator. -/
def Script.IsPadding (width : CharWidth) (script : Script) (position : Nat) : Prop :=
  ∃ segment place, script.Locates width position segment place ∧
    segment.isPadding width place = true

namespace Source

namespace Tiled

variable {source : Source} {segments : SegmentMap} {tiles : List Tile} {position place : Nat}

/-- The bytes of a tiling's script are the places in its tiles. -/
theorem locates_iff (tiled : source.Tiled segments 0 tiles) {segment : Segment} :
    (source.labelled tiles).Locates source.options.width position segment place ↔
      ∃ tile ∈ tiles, segment = tile.segment.addLabels (source.index.labelsAt tile.offset) ∧
        place < tile.segment.size source.options.width ∧ position = tile.offset + place := by
  -- The segments of the script are the tiles with their labels.
  rw [Script.Locates, tiled.placed_labelled]
  constructor
  · rintro ⟨start, listed, inside, here⟩
    obtain ⟨tile, found, same⟩ := List.mem_map.mp listed
    obtain ⟨rfl, rfl⟩ := Prod.mk.inj same
    exact ⟨tile, found, rfl, inside, here⟩
  · rintro ⟨tile, found, rfl, inside, here⟩
    exact ⟨tile.offset, List.mem_map.mpr ⟨tile, found, rfl⟩, inside, here⟩

/-- A byte of a tile comes after a text exactly if its place in the tile does. -/
theorem isPadding_iff (tiled : source.Tiled segments 0 tiles) {tile : Tile} (listed : tile ∈ tiles)
    (inside : place < tile.segment.size source.options.width) :
    (source.labelled tiles).IsPadding source.options.width (tile.offset + place) ↔
      tile.segment.isPadding source.options.width place = true := by
  constructor
  · rintro ⟨segment, other, located, padding⟩
    obtain ⟨found, foundListed, rfl, foundInside, same⟩ := tiled.locates_iff.mp located
    -- The byte is in no other tile.
    obtain rfl := tiled.tile_unique listed foundListed inside foundInside same
    obtain rfl : place = other := by omega
    exact padding
  · intro padding
    exact ⟨_, place, tiled.locates_iff.mpr ⟨tile, listed, rfl, inside, rfl⟩, padding⟩

end Tiled

namespace Written

variable {source : Source} {offset : Nat} {segment : Segment} {written : List UInt8}

/-- Bytes are those of a range exactly if they agree with it at every place. -/
theorem eq_slice_iff :
    written = source.slice offset (offset + written.length) ↔
      ∀ place < written.length, written[place]? = source.bytes[offset + place]? := by
  -- Both are as long as what is written.
  constructor
  · intro same place inside
    have here := source.getElem?_slice offset written.length place
    rwa [← same, if_pos inside] at here
  · intro agree
    refine List.ext_getElem? fun place => ?_
    rw [getElem?_slice]
    split
    · rename_i inside
      exact agree place inside
    · -- Both end here.
      rw [List.getElem?_eq_none (by omega)]

/-- The end of a range is zeros exactly if each of its bytes is. -/
theorem drop_slice_eq_zeros_iff {size stop : Nat} :
    (source.slice offset (offset + size)).drop stop = List.replicate (size - stop) 0 ↔
      ∀ place < size, stop ≤ place → source.bytes[offset + place]? = some 0 := by
  -- Places after the stop are counted from the start of the range.
  constructor
  · intro zeros place inside after
    have found := congrArg (·[place - stop]?) zeros
    simp only [List.getElem?_drop, List.getElem?_replicate, getElem?_slice] at found
    rwa [Nat.add_sub_cancel' after, if_pos inside, if_pos (by omega)] at found
  · intro zero
    refine List.ext_getElem? fun place => ?_
    rw [List.getElem?_drop, List.getElem?_replicate, getElem?_slice]
    by_cases inside : stop + place < size
    · rw [if_pos inside, if_pos (by omega), zero _ inside (Nat.le_add_right _ _)]
    · rw [if_neg inside, if_neg (by omega)]

/-- Code is written as it stood exactly if nothing but zeros follows the first string in it that was
read without its terminator. -/
theorem code_agrees_iff (made : source.Written offset segment written)
    (code : segment.kind = .code) (room : offset + written.length ≤ source.bytes.length) :
    (∀ place < written.length, written[place]? = source.bytes[offset + place]?) ↔
      ∀ place < written.length, segment.isAfterCut source.options.width place = true →
        source.bytes[offset + place]? = some 0 := by
  obtain ⟨instructions, content⟩ := Segment.content_of_code code
  rw [← eq_slice_iff, made.code instructions content room]
  simp only [drop_slice_eq_zeros_iff, Segment.isAfterCut, content, Option.any_eq_true,
    decide_eq_true_eq]
  -- The places after the cut are the same ones, counted from the cut or from the start.
  constructor
  · rintro zeros place inside ⟨stop, cut, after⟩
    exact zeros stop cut place inside after
  · intro zeros stop cut place inside after
    exact zeros place inside ⟨stop, cut, after⟩

/-- Data is written as it stood, and a text up to its terminator. -/
theorem getElem?_of_not_code (made : source.Written offset segment written)
    (notCode : segment.kind ≠ .code) (room : offset + written.length ≤ source.bytes.length)
    {place : Nat} (inside : place < written.length)
    (kept : segment.isPadding source.options.width place = false) :
    written[place]? = source.bytes[offset + place]? := by
  have here := source.getElem?_slice offset written.length place
  rw [if_pos inside] at here
  obtain ⟨labels, content⟩ := segment
  cases content with
  | code instructions => exact absurd rfl notCode
  | data bytes => rw [← here, ← made.data bytes rfl]
  | text value stored =>
    -- A place that is no padding is within the text and its terminator.
    have before : place < source.options.width.textExtent value written.length := by
      rw [made.size]
      simpa [Segment.isPadding] using kept
    have fits := source.options.width.textExtent_le value written.length
    have front := congrArg (·[place]?) (made.text value stored rfl)
    rw [front, List.getElem?_append_left, List.getElem?_take, if_pos before, here]
    -- The text does not go beyond what the segment stands for.
    rw [List.length_take, source.slice_length room]
    omega

/-- What comes after a text and its terminator is written as zeros. -/
theorem getElem?_of_isPadding (made : source.Written offset segment written)
    (room : offset + written.length ≤ source.bytes.length) {place : Nat}
    (inside : place < written.length)
    (padding : segment.isPadding source.options.width place = true) : written[place]? = some 0 := by
  obtain ⟨labels, content⟩ := segment
  cases content with
  | code instructions => cases padding
  | data bytes => cases padding
  | text value stored =>
    -- Padding is the part behind the text and its terminator.
    have after : source.options.width.textExtent value written.length ≤ place := by
      rw [made.size]
      simpa [Segment.isPadding] using padding
    have fits := source.options.width.textExtent_le value written.length
    have front := congrArg (·[place]?) (made.text value stored rfl)
    have count : ((source.slice offset (offset + written.length)).take
        (source.options.width.textExtent value written.length)).length =
          source.options.width.textExtent value written.length := by
      rw [List.length_take, source.slice_length room]
      omega
    rw [front, List.getElem?_append_right (by omega), count, List.getElem?_replicate,
      if_pos (by omega)]

end Written

/-- A script that is written tile by tile agrees with the bytes outside of padding if each of its
tiles does. -/
theorem Tiled.getElem?_of_agree {source : Source} {segments : SegmentMap} {tiles : List Tile}
    (tiled : source.Tiled segments 0 tiles) {output : List UInt8}
    (size : output.length = source.bytes.length)
    (agree : ∀ tile ∈ tiles, ∃ written : List UInt8,
      written.length = tile.segment.size source.options.width ∧
        (output.take (tile.offset + written.length)).drop tile.offset = written ∧
        ∀ place < written.length, tile.segment.isPadding source.options.width place = false →
          written[place]? = source.bytes[tile.offset + place]?)
    {position : Nat} (kept : ¬(source.labelled tiles).IsPadding source.options.width position) :
    output[position]? = source.bytes[position]? := by
  by_cases inside : position < source.bytes.length
  · -- The byte is in one of the tiles, and what is written for that stands in its place.
    obtain ⟨tile, listed, after, before⟩ := tiled.covers (Nat.zero_le position) inside
    obtain ⟨place, rfl⟩ := Nat.exists_eq_add_of_le after
    obtain ⟨written, count, here, same⟩ := agree tile listed
    have within : place < tile.segment.size source.options.width := by omega
    rw [tiled.isPadding_iff listed within, Bool.not_eq_true] at kept
    rw [← count] at within
    rw [getElem?_range here within]
    exact same place within kept
  · rw [List.getElem?_eq_none (by omega), List.getElem?_eq_none (by omega)]

end Source

/-- Where a strict parse represents its input.

What is written for a script that a strict parse has read is as long as the input. It is the same at
every byte that is not after the terminator of a text, if and only if in the code of the script all
bytes after the first string that is too long to be read with its terminator are zero. -/
theorem encode_parse_faithful_iff {config : Config} {opcodes : OpcodeTable}
    (described : config.opcodeTable = .ok opcodes) {bytes : List UInt8} {labels : LabelTable}
    {entries : List Label} {options : ParseOptions} (strict : options.lenient = false)
    {script : Script} {problems : List Problem}
    (parsed : (parse bytes labels entries opcodes options).1 = .ok ⟨some script, problems⟩) :
    ∃ encoded, script.encode options.width = .ok encoded ∧
      encoded.bytes.length = bytes.length ∧
      ((∀ position, ¬script.IsPadding options.width position →
          encoded.bytes[position]? = bytes[position]?) ↔
        ∀ position segment place, script.Locates options.width position segment place →
          segment.isAfterCut options.width place = true → bytes[position]? = some 0) := by
  -- The script is a tiling of the bytes, and is written tile by tile.
  obtain ⟨passes, state, run, made⟩ := parse_eq_ok.mp parsed
  generalize known : (⟨bytes, .ofTable labels, opcodes, options⟩ : Source) = source at run made
  obtain rfl : source.bytes = bytes := by rw [← known]
  obtain rfl : source.options = options := by rw [← known]
  have last : source.opcodes.VariadicLast := by
    rw [← known]
    exact Config.opcodeTable_variadicLast described
  obtain ⟨rfl, -, total⟩ := Source.assemble_eq_some made
  have tiled := source.tiled_tiles state.segments
  have total := total strict
  generalize source.tiles state.segments = tiles at tiled total
  obtain ⟨encoded, wrote, size, -, pieces⟩ :=
    tiled.encode_labelled strict last (sound_of_runDiscovery run) total
  refine ⟨encoded, wrote, size, ?_⟩
  constructor
  · intro same position segment place located after
    obtain ⟨tile, listed, rfl, inside, rfl⟩ := tiled.locates_iff.mp located
    obtain ⟨written, spelled, room, here⟩ := pieces tile listed
    rw [← spelled.size] at inside
    have code : tile.segment.kind = .code := Segment.kind_of_isAfterCut after
    -- All of the segment is written as it stood, since no byte of code is padding.
    refine (spelled.code_agrees_iff code room).mp (fun other before => ?_) place inside after
    rw [← getElem?_range here before, same]
    rw [tiled.isPadding_iff listed (by rw [← spelled.size]; exact before),
      Segment.isPadding_of_code other code]
    exact Bool.false_ne_true
  · intro zeros position kept
    refine tiled.getElem?_of_agree size (fun tile listed => ?_) kept
    obtain ⟨written, spelled, room, here⟩ := pieces tile listed
    refine ⟨written, spelled.size, here, fun place within kept => ?_⟩
    -- Only code may differ from what stood there, and it is told apart by its cut.
    by_cases code : tile.segment.kind = .code
    · refine (spelled.code_agrees_iff code room).mpr (fun other placed cut => ?_) place within
      rw [spelled.size] at placed
      exact zeros _ _ other (tiled.locates_iff.mpr ⟨tile, listed, rfl, placed, rfl⟩) cut
    · exact spelled.getElem?_of_not_code code room within kept

/-- Code that refers to a text, and the text with its terminator and another byte. -/
def talkBytes : List UInt8 := [0xF8, 0xDC, 1, 2, 1, 0, 0x01, 0x68, 0x69, 0x00, 0x78]

/-- What is read from the code and the text. -/
def talkScript : Script :=
  ⟨[⟨[0], .code
      [{ opcode := OpcodeTable.standard.get Code.npcActionString,
          args := [.int 1, .int 2, .int 1] },
        { opcode := OpcodeTable.standard.get Code.ret }]⟩,
    ⟨[1], .text "hi" (some 4)⟩]⟩

/-- The code and the text are read without a problem. -/
theorem parse_talkBytes :
    (parse talkBytes [0, 7] [0] .standard { width := .narrow }).1 = .ok ⟨some talkScript, []⟩ := by
  cbv

/-- The code and the text are written as they stood, since no string in the code is too long. -/
theorem encode_parse_faithful_talkBytes :
    Config.opcodeTable {} = .ok .standard ∧
      (parse talkBytes [0, 7] [0] .standard { width := .narrow }).1 = .ok ⟨some talkScript, []⟩ ∧
      ∃ encoded, talkScript.encode .narrow = .ok encoded ∧
        encoded.bytes.length = talkBytes.length ∧
        ((∀ position, ¬talkScript.IsPadding .narrow position →
            encoded.bytes[position]? = talkBytes[position]?) ↔
          ∀ position segment place, talkScript.Locates .narrow position segment place →
            segment.isAfterCut .narrow place = true → talkBytes[position]? = some 0) :=
  -- A strict parse has no problems, so that the law applies to its script.
  ⟨rfl, parse_talkBytes,
    @encode_parse_faithful_iff {} .standard rfl talkBytes [0, 7] [0] { width := .narrow } rfl
      talkScript [] parse_talkBytes⟩

end QuestScript
