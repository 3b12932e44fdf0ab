import QuestScript.Proofs.Text.Field
import QuestScript.Script.Encode

/-! Texts of a script are read back from where they are written.

A text can be stored in more bytes than it needs, or in no more than its units take up, so that no
terminator follows them. -/

namespace QuestScript

/-- A text, its terminator and the zeros behind them have room in the size that a text without a
known size is given. -/
theorem CharWidth.terminatedSize_le_paddedSize (width : CharWidth) (text : String) :
    width.terminatedSize text ≤ width.paddedSize text := by
  unfold paddedSize
  omega

/-- A reader within a range that starts behind some bytes reads what follows them. -/
theorem Reader.within_append {before bytes after : List UInt8} {stop : Nat}
    (reaches : before.length + bytes.length ≤ stop) :
    Reader.within (before ++ bytes ++ after) before.length stop =
      ⟨before.length, bytes ++ after.take (stop - (before.length + bytes.length))⟩ := by
  have size : (before ++ bytes ++ after).length =
      before.length + bytes.length + after.length := by
    rw [List.length_append, List.length_append]
  have start : before.length ≤ min stop (before.length + bytes.length + after.length) := by omega
  -- The range reaches beyond the bytes, and ends with the data or before that.
  have behind : after.take (min stop (before.length + bytes.length + after.length) -
      before.length - bytes.length) = after.take (stop - (before.length + bytes.length)) := by
    rw [List.take_eq_take_iff]
    omega
  simp only [within, size, Nat.min_eq_left start]
  rw [List.append_assoc, List.take_append, List.take_of_length_le start, List.drop_left,
    List.take_append, List.take_of_length_le (by omega), behind]

/-- The units of a text have room in its segment, if the size that is known for it is enough. -/
theorem Segment.units_length_le {width : CharWidth} {text : String} {stored : Option Nat}
    (room : ∀ size, stored = some size → width.unitSize * (width.units text).length ≤ size)
    (labels : LabelSet) :
    (width.units text).length ≤
      Segment.size width ⟨labels, .text text stored⟩ / width.unitSize := by
  rw [Nat.le_div_iff_mul_le width.unitSize_pos, Nat.mul_comm]
  cases stored with
  | some size => exact room size rfl
  | none =>
    -- A size that is not known is made large enough for the terminator too.
    exact Nat.le_trans (Nat.le_add_right _ _) (width.terminatedSize_le_paddedSize text)

/-- A text without the character zero, whose characters all have a unit, is read back from the bytes
that its segment is written in, whatever stands before and behind them.

If a size is known for the segment, it only has to have room for the units of the text. The reader
then is right behind the segment, also where the last byte of that is no whole unit. -/
theorem Segment.string_encode {width : CharWidth} {text : String} {stored : Option Nat} {size : Nat}
    (noZero : '\x00' ∉ text.toList)
    (latin : width = .narrow → ∀ c ∈ text.toList, c.toNat ≤ 0xFF)
    (room : ∀ size, stored = some size → width.unitSize * (width.units text).length ≤ size)
    (labels : LabelSet) (sized : Segment.size width ⟨labels, .text text stored⟩ = size) :
    Segment.encode width ⟨labels, .text text stored⟩ = .ok (width.field text size) ∧
      (width.field text size).length = size ∧
      ∀ before after stop, before.length + size ≤ stop →
        Reader.string width size true
            (Reader.within (before ++ width.field text size ++ after) before.length stop) =
          .ok text ⟨before.length + size, after.take (stop - (before.length + size))⟩ := by
  subst sized
  -- The field has the size of the segment, and the reader is put where it starts.
  have length := CharWidth.field_length width text
    (Segment.size width ⟨labels, .text text stored⟩)
  refine ⟨rfl, length, fun before after stop reaches => ?_⟩
  rw [Reader.within_append (by omega), length]
  exact Reader.string_field_append noZero latin (Segment.units_length_le room labels) _ _

/-- A wide text with a surrogate pair is stored in seven bytes. There is no room for a terminator,
and the last byte is no unit. -/
theorem Segment.string_encode_pair :
    '\x00' ∉ "a😀".toList ∧ CharWidth.wide.unitSize * (CharWidth.wide.units "a😀").length = 6 ∧
      Segment.encode .wide ⟨[4], .text "a😀" (some 7)⟩ =
        .ok [0x61, 0x00, 0x3D, 0xD8, 0x00, 0xDE, 0x00] ∧
      Reader.string .wide 7 true
          (Reader.within [0x01, 0x61, 0x00, 0x3D, 0xD8, 0x00, 0xDE, 0x00, 0x62, 0x00] 1 10) =
        .ok "a😀" ⟨8, [0x62, 0x00]⟩ := by
  have noZero : '\x00' ∉ "a😀".toList := by decide
  have units : CharWidth.wide.unitSize * (CharWidth.wide.units "a😀").length = 6 := by decide
  -- Seven bytes are enough for the three units.
  have room : ∀ size, some 7 = some size →
      CharWidth.wide.unitSize * (CharWidth.wide.units "a😀").length ≤ size := by
    rintro size ⟨⟩
    rw [units]
    decide
  have bytes : CharWidth.wide.field "a😀" 7 = [0x61, 0x00, 0x3D, 0xD8, 0x00, 0xDE, 0x00] := by
    decide
  -- The text is read between one byte and one unit that are not its own.
  obtain ⟨written, -, read⟩ := Segment.string_encode noZero (by decide) room [4] rfl
  have back := read [0x01] [0x62, 0x00] 10 (by decide)
  change Segment.encode .wide _ = .ok (CharWidth.wide.field "a😀" 7) at written
  change Reader.string .wide 7 true
    (Reader.within ([0x01] ++ CharWidth.wide.field "a😀" 7 ++ _) 1 10) = _ at back
  rw [bytes] at written back
  exact ⟨noZero, units, written, back⟩

end QuestScript
