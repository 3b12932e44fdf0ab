import QuestScript.Proofs.Bytes.Reader

/-! Texts in fields: what a field keeps of the bytes that its text was read from. -/

namespace QuestScript

/-- Bytes at the front of a field that hold its text, and the terminator if there is room for it. -/
def CharWidth.textExtent (width : CharWidth) (text : String) (size : Nat) : Nat :=
  width.unitSize * min ((width.units text).length + 1) (size / width.unitSize)

/-- A text and its terminator do not go beyond their field. -/
theorem CharWidth.textExtent_le (width : CharWidth) (text : String) (size : Nat) :
    width.textExtent text size ≤ size :=
  Nat.le_trans (Nat.mul_le_mul_left _ (Nat.min_le_right _ _)) (Nat.mul_div_le _ _)

/-- Units that all fit into a field stand at its front, and zeros follow them. -/
theorem CharWidth.field_of_fits {width : CharWidth} {text : String} {size : Nat}
    (fits : (width.units text).length ≤ size / width.unitSize) :
    width.field text size = (width.units text).flatMap width.unitBytes ++
      List.replicate (size - width.unitSize * (width.units text).length) 0 := by
  simp only [field, List.take_of_length_le fits, flatMap_unitBytes_length]

namespace Reader

variable {width : CharWidth} {text : String}

/-- Zeros begin with no text. -/
theorem takeWhile_units_zeros (width : CharWidth) (count : Nat) :
    (width.unitsOfBytes (List.replicate count 0)).takeWhile (· != 0) = [] := by
  cases width with
  | narrow =>
    cases count with
    | zero => rfl
    | succ count => rfl
  | wide =>
    -- It takes two bytes to make a unit.
    match count with
    | 0 => rfl
    | 1 => rfl
    | count + 2 => rfl

/-- A text that was read as a field has no more units than fit into the field. -/
theorem units_length_le_of_string {position : Nat} {bytes : List UInt8} {next : Reader}
    (read : string width bytes.length true ⟨position, bytes⟩ = .ok text next) :
    (width.units text).length ≤ bytes.length / width.unitSize := by
  -- The units of the text are those before the first zero.
  obtain ⟨body, -, -⟩ := units_of_string read
  rw [body, List.take_length, ← CharWidth.unitsOfBytes_length]
  exact (List.takeWhile_sublist _).length_le

/-- A field is written with the text and terminator that were read, and with zeros after them. -/
theorem field_of_string {position : Nat} {bytes : List UInt8} {next : Reader}
    (read : string width bytes.length true ⟨position, bytes⟩ = .ok text next) :
    width.field text bytes.length =
      bytes.take (width.textExtent text bytes.length) ++
        List.replicate (bytes.length - width.textExtent text bytes.length) 0 := by
  -- Both sides are cut into the units of the text and what follows them.
  obtain ⟨body, -, -⟩ := units_of_string read
  have short := units_length_le_of_string read
  have front := CharWidth.take_unitsOfBytes_flatMap width bytes
  have size := CharWidth.unitsOfBytes_length width bytes
  rw [List.take_length] at body
  generalize width.unitsOfBytes bytes = units at body front size
  rw [CharWidth.field_of_fits short, CharWidth.textExtent, ← front _ (Nat.min_le_right _ _)]
  rcases takeWhile_ne_zero units with all | ⟨room, taken⟩
  · -- The text fills all units, and no terminator follows it.
    rw [all] at body
    rw [body, size, Nat.min_eq_right (Nat.le_succ _), ← size, List.take_length]
  · rw [← body, size] at room
    rw [← body] at taken
    -- What the field holds after the text begins with the terminator.
    have rest : bytes.length - width.unitSize * (width.units text).length =
        width.unitSize + (bytes.length - width.unitSize * ((width.units text).length + 1)) := by
      have whole := Nat.mul_le_mul_left width.unitSize room
      have all := Nat.mul_div_le bytes.length width.unitSize
      rw [Nat.mul_succ] at whole ⊢
      omega
    rw [Nat.min_eq_left room, taken, List.flatMap_append, List.flatMap_singleton, unitBytes_zero,
      rest, List.append_assoc, List.replicate_append_replicate]

/-- A text that fits into a field is read back from it, whatever follows the field. -/
theorem string_field_append {size : Nat} (noZero : '\x00' ∉ text.toList)
    (latin : width = .narrow → ∀ c ∈ text.toList, c.toNat ≤ 0xFF)
    (fits : (width.units text).length ≤ size / width.unitSize) (position : Nat)
    (rest : List UInt8) :
    string width size true ⟨position, width.field text size ++ rest⟩ =
      .ok text ⟨position + size, rest⟩ := by
  -- The units before the first zero are those of the text.
  have body : (width.unitsOfBytes (width.field text size)).takeWhile (· != 0) =
      width.units text := by
    rw [CharWidth.field_of_fits fits,
      CharWidth.unitsOfBytes_append (CharWidth.holds_units width text),
      List.takeWhile_append_of_pos (CharWidth.units_ne_zero noZero), takeWhile_units_zeros,
      List.append_nil]
  -- Exactly the field is within the limit.
  have length : (width.field text size).length = size := CharWidth.field_length width text size
  have span : (width.field text size ++ rest).take size = width.field text size :=
    List.take_left' length
  have behind : (width.field text size ++ rest).drop size = rest := List.drop_left' length
  simp only [string, span, body, CharWidth.text?_units latin, if_true, skip, length, behind]

/-- A text that was read as a field is read back from the field it is written to. -/
theorem string_field {position : Nat} {bytes : List UInt8} {next : Reader}
    (read : string width bytes.length true ⟨position, bytes⟩ = .ok text next) :
    string width bytes.length true ⟨position, width.field text bytes.length⟩ =
      .ok text ⟨position + bytes.length, []⟩ := by
  -- What has been read has no zero in it, and fits where it came from.
  obtain ⟨-, noZero, latin⟩ := units_of_string read
  have again := string_field_append noZero latin (units_length_le_of_string read) position []
  rwa [List.append_nil] at again

end Reader

end QuestScript
