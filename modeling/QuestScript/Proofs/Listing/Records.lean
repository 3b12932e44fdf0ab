import QuestScript.Proofs.Csv
import QuestScript.Proofs.Listing.Offsets

/-! Tables can be read back, whatever the mnemonics and texts of a script contain.

Each instruction, and each segment that is no code, is found in a record of its own. -/

namespace QuestScript

/-- What a table has a record for. -/
inductive EntryItem where
  /-- An instruction at a position of its segment. -/
  | instruction (position : Nat) (instruction : Instruction)
  | data (bytes : List UInt8)
  | text (value : String)

/-- Something that a table has a record for, with the number and the labels of its segment. -/
structure Entry where
  number : Nat
  labels : LabelSet
  item : EntryItem

namespace Entry

/-- The kind of the segment. -/
def kind (entry : Entry) : SegmentKind :=
  match entry.item with
  | .instruction _ _ => .code
  | .data _ => .data
  | .text _ => .text

/-- Whether nothing of the segment comes before. -/
def isFirst (entry : Entry) : Bool :=
  match entry.item with
  | .instruction position _ => position == 0
  | _ => true

/-- The mnemonic; only instructions have one. -/
def mnemonic (entry : Entry) : String :=
  match entry.item with
  | .instruction _ instruction => instruction.opcode.mnemonic
  | _ => ""

/-- The arguments of an instruction, the bytes of data, or a text as it is. -/
def operands (entry : Entry) : String :=
  match entry.item with
  | .instruction _ instruction => ", ".intercalate (instruction.args.map Arg.listing)
  | .data bytes => hexDump bytes
  | .text value => value

/-- A record shows an entry; the labels of a segment are on its first record only. -/
structure ShownBy (entry : Entry) (record : List String) : Prop where
  columns : record.length = 7
  number : csvField? record "segment" = some (toString entry.number)
  kind : csvField? record "segment_type" = some entry.kind.name
  labels : csvField? record "labels" =
    some (if entry.isFirst then " ".intercalate (entry.labels.map toString) else "")
  mnemonic : csvField? record "mnemonic" = some entry.mnemonic
  operands : csvField? record "operands" = some entry.operands

end Entry

/-- The entries of a segment with a number: its instructions, or itself if it is no code. -/
def Segment.entries (number : Nat) (segment : Segment) : List Entry :=
  match segment.content with
  | .code instructions => instructions.zipIdx.map fun (instruction, position) =>
      ⟨number, segment.labels, .instruction position instruction⟩
  | .data bytes => [⟨number, segment.labels, .data bytes⟩]
  | .text value _ => [⟨number, segment.labels, .text value⟩]

/-- The entries of a script, in order. -/
def Script.entries (script : Script) : List Entry :=
  script.segments.zipIdx.flatMap fun (segment, number) => segment.entries number

section

variable {width : CharWidth}

/-- A row that is made of the data of an entry shows it. -/
theorem Entry.shownBy_csvRow {entry : Entry} {labels : LabelSet}
    (shown : labels = if entry.isFirst then entry.labels else []) (offset size : Nat) :
    entry.ShownBy
      (csvRow entry.number entry.kind labels offset size entry.mnemonic entry.operands) := by
  -- Labels are given in the first row of a segment only.
  have joined : " ".intercalate (labels.map toString) =
      if entry.isFirst then " ".intercalate (entry.labels.map toString) else "" := by
    rw [shown]
    split <;> rfl
  constructor <;> simp [csvField?, csvRow, csvHeader, lookup_cons_eq_ite, joined]

/-- The rows of instructions show them, from a position in their segment on. -/
theorem forall₂_codeRows (number : Nat) (labels : LabelSet) (start position : Nat)
    (instructions : List Instruction) :
    List.Forall₂ Entry.ShownBy
      ((instructions.zipIdx position).map fun (instruction, position) =>
        ⟨number, labels, .instruction position instruction⟩)
      (codeRows width number (if position = 0 then labels else [])
        (placedInstructions width start instructions)) := by
  induction instructions generalizing start position with
  | nil => exact .nil
  | cons instruction instructions ih =>
    -- Behind the first instruction of all, no row has the labels.
    have rest := ih (start + instruction.size width) (position + 1)
    rw [if_neg (Nat.succ_ne_zero position)] at rest
    refine .cons ?_ rest
    refine @Entry.shownBy_csvRow ⟨number, labels, .instruction position instruction⟩ _ ?_ _ _
    simp [Entry.isFirst]

/-- The rows of a segment show its entries. -/
theorem Segment.forall₂_csvRows (number offset : Nat) (segment : Segment) :
    List.Forall₂ Entry.ShownBy (segment.entries number) (segment.csvRows width number offset) := by
  obtain ⟨labels, content⟩ := segment
  cases content with
  | code instructions => exact forall₂_codeRows number labels offset 0 instructions
  -- Data and texts have one row, which is the first.
  | data bytes => exact .cons (@Entry.shownBy_csvRow ⟨number, labels, .data bytes⟩ _ rfl _ _) .nil
  | text value stored =>
    exact .cons (@Entry.shownBy_csvRow ⟨number, labels, .text value⟩ _ rfl _ _) .nil

/-- The rows of segments show their entries. -/
theorem forall₂_segments (start number : Nat) (segments : List Segment) :
    List.Forall₂ Entry.ShownBy
      ((segments.zipIdx number).flatMap fun (segment, number) => segment.entries number)
      ((((startsFrom start (segments.map (·.size width))).zip segments).zipIdx number).flatMap
        fun ((offset, segment), number) => segment.csvRows width number offset) := by
  induction segments generalizing start number with
  | nil => exact .nil
  | cons segment segments ih =>
    -- The next segment is numbered one higher, and starts where this one ends.
    exact List.rel_append (segment.forall₂_csvRows number start)
      (ih (start + segment.size width) (number + 1))

end

/-- Records that show entries have fields. -/
theorem ne_nil_of_forall₂ {entries : List Entry} {records : List (List String)}
    (shown : List.Forall₂ Entry.ShownBy entries records) : ∀ record ∈ records, record ≠ [] := by
  induction shown with
  | nil => simp
  | @cons entry record entries records first _ ih =>
    -- A record has seven fields, so it is not empty.
    have seven := first.columns
    refine List.forall_mem_cons.mpr ⟨?_, ih⟩
    rintro rfl
    cases seven

/-- A script that is written as a table is read back from it: its text spells one table and no
other, which has the names of the columns in front, and then a record for each instruction and each
segment that is no code. -/
theorem Script.read_toCsv (width : CharWidth) (script : Script) :
    ∃ records, Csv.read (script.toCsv width) = some (csvHeader :: records) ∧
      (∀ table, Csv.Spells table (script.toCsv width).toList ↔ table = csvHeader :: records) ∧
      List.Forall₂ Entry.ShownBy script.entries records := by
  have shown : List.Forall₂ Entry.ShownBy script.entries (script.csvRows width) :=
    forall₂_segments 0 0 script.segments
  have filled : ∀ row ∈ csvHeader :: script.csvRows width, row ≠ [] :=
    List.forall_mem_cons.mpr ⟨by decide, ne_nil_of_forall₂ shown⟩
  have spelled := Csv.spells_tableText filled
  have back := Csv.read_of_spells spelled
  refine ⟨script.csvRows width, back, fun table => ⟨fun other => ?_, ?_⟩, shown⟩
  · -- The reader finds every table that the text spells.
    exact Option.some.inj ((Csv.read_of_spells other).symm.trans back)
  · rintro rfl
    exact spelled

/-- A text with a comma, quotes and the end of a line comes back as it is. -/
example : Csv.read (Script.toCsv .wide ⟨[⟨[2, 5], .text "a,\"b\"\r\n" none⟩]⟩) =
    some [csvHeader, ["0", "string", "2 5", "0", "16", "", "a,\"b\"\r\n"]] := by
  cbv

end QuestScript
