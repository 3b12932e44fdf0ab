import QuestScript.Proofs.Bytes.Words
import QuestScript.Proofs.Text.Utf16
import QuestScript.Text.Width

/-! Stored units, the bytes that spell them, and the texts that they spell. -/

namespace QuestScript.CharWidth

/-- A unit is at least a byte. -/
theorem unitSize_pos (width : CharWidth) : 0 < width.unitSize := by
  cases width <;> decide

/-- Units that are stored without a loss: those of one byte hold no more than a byte. -/
def Holds (width : CharWidth) (units : List UInt16) : Prop :=
  width = .narrow → ∀ unit ∈ units, unit.toNat < 256

/-- A unit is stored in as many bytes as the width says. -/
@[simp] theorem unitBytes_length (width : CharWidth) (unit : UInt16) :
    (width.unitBytes unit).length = width.unitSize := by
  cases width <;> rfl

/-- Units are stored side by side. -/
@[simp] theorem flatMap_unitBytes_length (width : CharWidth) (units : List UInt16) :
    (units.flatMap width.unitBytes).length = width.unitSize * units.length := by
  -- Every unit adds its bytes to those of the others.
  induction units with
  | nil => simp
  | cons unit units ih =>
    simp only [List.flatMap_cons, List.length_append, unitBytes_length, ih, List.length_cons,
      Nat.mul_succ]
    omega

/-- Bytes hold as many units as fit into them. -/
theorem unitsOfBytes_length (width : CharWidth) (bytes : List UInt8) :
    (width.unitsOfBytes bytes).length = bytes.length / width.unitSize := by
  -- A narrow unit is a byte, and a wide one a word.
  cases width with
  | narrow => simp [unitsOfBytes, unitSize]
  | wide => exact wordsOfBytes_length bytes

/-- What is read from bytes can be stored in them. -/
theorem holds_unitsOfBytes (width : CharWidth) (bytes : List UInt8) :
    width.Holds (width.unitsOfBytes bytes) := by
  -- A narrow unit is the number of a byte.
  rintro rfl unit found
  obtain ⟨byte, -, rfl⟩ := List.mem_map.mp found
  simp only [UInt16.toNat_ofNat']
  have small : byte.toNat < 256 := byte.toNat_lt
  omega

/-- A narrow unit is spelled by the byte it was read from. -/
private theorem unitBytes_narrow (byte : UInt8) :
    CharWidth.narrow.unitBytes (.ofNat byte.toNat) = [byte] := by
  -- The unit of a byte is cut to eight bits, and that changes nothing.
  have small : byte.toNat < 256 := byte.toNat_lt
  simp only [unitBytes, List.cons.injEq, and_true, ← UInt8.toNat_inj, UInt8.toNat_ofNat',
    UInt16.toNat_ofNat']
  omega

/-- Units are read back from their bytes, whatever follows them. -/
theorem unitsOfBytes_append {width : CharWidth} {units : List UInt16} (held : width.Holds units)
    (rest : List UInt8) :
    width.unitsOfBytes (units.flatMap width.unitBytes ++ rest) =
      units ++ width.unitsOfBytes rest := by
  -- Wide units are words; narrow ones are compared byte by byte.
  cases width with
  | wide => exact wordsOfBytes_append units rest
  | narrow =>
    have small := held rfl
    induction units with
    | nil => rfl
    | cons unit units ih =>
      -- A unit below 256 loses nothing on its way through a byte.
      have first : (UInt16.ofNat (UInt8.ofNat unit.toNat).toNat) = unit := by
        have below := small unit List.mem_cons_self
        simp only [← UInt16.toNat_inj, UInt16.toNat_ofNat', UInt8.toNat_ofNat']
        omega
      have others := ih (fun _ => fun other found => small other (List.mem_cons_of_mem _ found))
        (fun other found => small other (List.mem_cons_of_mem _ found))
      simp only [List.flatMap_cons, unitBytes, List.cons_append, List.nil_append, unitsOfBytes,
        List.map_cons, first] at others ⊢
      exact congrArg (unit :: ·) others

/-- The first units in some bytes are spelled by the bytes at their front. -/
theorem take_unitsOfBytes_flatMap (width : CharWidth) (bytes : List UInt8) (count : Nat)
    (enough : count ≤ bytes.length / width.unitSize) :
    ((width.unitsOfBytes bytes).take count).flatMap width.unitBytes =
      bytes.take (width.unitSize * count) := by
  cases width with
  | wide => exact take_wordsOfBytes_flatMap bytes count enough
  | narrow =>
    -- Every byte is a unit of its own.
    simp only [unitsOfBytes, ← List.map_take, List.flatMap_map, unitSize, Nat.one_mul]
    generalize bytes.take count = front
    induction front with
    | nil => rfl
    | cons byte front ih =>
      rw [List.flatMap_cons, unitBytes_narrow, ih]
      rfl

/-- A character of one byte is spelled again by the unit it is read from. -/
private theorem narrowUnit_ofNat {unit : UInt16} (small : unit.toNat < 256) :
    narrowUnit (Char.ofNat (unit.toNat % 256)) = unit := by
  -- A number below 256 is that of a character.
  have value : (Char.ofNat (unit.toNat % 256)).toNat = unit.toNat := by
    rw [Nat.mod_eq_of_lt small]
    exact Utf16.toNat_ofNat (Or.inl (by omega))
  simp [narrowUnit, value, show unit.toNat ≤ 0xFF by omega]

/-- A text that was read from units is spelled by them. -/
theorem units_of_text? {width : CharWidth} {units : List UInt16} {text : String}
    (held : width.Holds units) (read : width.text? units = some text) :
    width.units text = units := by
  cases width with
  | narrow =>
    simp only [text?, Option.some.injEq] at read
    subst read
    simp only [CharWidth.units, String.toList_ofList, List.map_map]
    -- Every unit comes back by itself.
    conv => rhs; rw [← List.map_id units]
    refine List.map_congr_left fun unit found => ?_
    exact narrowUnit_ofNat (held rfl unit found)
  -- The characters of a wide text spell the units that they were read from.
  | wide =>
    obtain ⟨chars, decoded, rfl⟩ := Option.map_eq_some_iff.mp read
    simp only [CharWidth.units, String.toList_ofList]
    exact Utf16.encode_decode decoded

/-- A text whose characters all have a unit of their own is read back from its units. -/
theorem text?_units {width : CharWidth} {text : String}
    (latin : width = .narrow → ∀ c ∈ text.toList, c.toNat ≤ 0xFF) :
    width.text? (width.units text) = some text := by
  cases width with
  | narrow =>
    -- A character of one byte is the number of its unit.
    have same : (text.toList.map narrowUnit).map (fun unit => Char.ofNat (unit.toNat % 256)) =
        text.toList := by
      rw [List.map_map]
      conv => rhs; rw [← List.map_id text.toList]
      refine List.map_congr_left fun c found => ?_
      have small := latin rfl c found
      simp only [Function.comp_apply, narrowUnit, small, if_true, UInt16.toNat_ofNat', id_eq]
      rw [show c.toNat % 2 ^ 16 % 256 = c.toNat by omega]
      exact Char.ofNat_toNat c
    simp only [text?, CharWidth.units, same, String.ofList_toList]
  | wide => simp [text?, CharWidth.units, Utf16.decode_encode]

/-- The units of a text can be stored. -/
theorem holds_units (width : CharWidth) (text : String) : width.Holds (width.units text) := by
  rintro rfl unit found
  obtain ⟨c, -, rfl⟩ := List.mem_map.mp found
  -- A character that has no unit of its own is stored as a mark, which has one.
  unfold narrowUnit
  split
  · simp only [UInt16.toNat_ofNat']
    omega
  · decide

/-- Only the character zero has a zero unit. -/
theorem zero_mem_units (width : CharWidth) (text : String) :
    0 ∈ width.units text ↔ '\x00' ∈ text.toList := by
  cases width with
  | wide => exact Utf16.zero_mem_encode
  | narrow =>
    -- Only the number zero is stored as zero.
    have single : ∀ c : Char, narrowUnit c = 0 ↔ c = '\x00' := by
      intro c
      unfold narrowUnit
      split
      · rw [← UInt16.toNat_inj, ← Char.toNat_inj, UInt16.toNat_ofNat']
        change c.toNat % 2 ^ 16 = 0 ↔ c.toNat = 0
        omega
      · -- The mark that stands for another character is not zero, and neither is the character.
        rename_i large
        constructor
        · intro zero
          exact absurd zero (by decide)
        · rintro rfl
          exact absurd (by decide) large
    simp only [CharWidth.units, List.mem_map, single, exists_eq_right]

/-- A text without the character zero has no zero unit. -/
theorem units_ne_zero {width : CharWidth} {text : String} (noZero : '\x00' ∉ text.toList) :
    ∀ unit ∈ width.units text, (unit != 0) = true := by
  intro unit found
  rw [bne_iff_ne]
  rintro rfl
  -- A zero unit is that of the character zero.
  exact noZero ((zero_mem_units width text).mp found)

/-- A unit that is not zero has a byte that is not. -/
theorem exists_nonzero_unitBytes {width : CharWidth} {unit : UInt16} (held : width.Holds [unit])
    (nonzero : unit ≠ 0) : ∃ byte ∈ width.unitBytes unit, byte ≠ 0 := by
  have some : unit.toNat ≠ 0 := fun zero => nonzero (UInt16.toNat_inj.mp zero)
  have small : unit.toNat < 65536 := unit.toNat_lt
  -- The number of a byte that is zero leaves nothing of the unit.
  have byteZero : ∀ number, UInt8.ofNat number = 0 ↔ number % 256 = 0 := by
    intro number
    rw [← UInt8.toNat_inj, UInt8.toNat_ofNat']
    rfl
  cases width with
  | narrow =>
    have below := held rfl unit List.mem_cons_self
    refine ⟨.ofNat unit.toNat, List.mem_cons_self, fun zero => ?_⟩
    rw [byteZero] at zero
    omega
  | wide =>
    -- A wide unit whose low byte is zero has its number in the high byte.
    by_cases low : unit.toNat % 256 = 0
    · refine ⟨.ofNat (unit.toNat / 256), List.mem_cons_of_mem _ List.mem_cons_self, fun zero => ?_⟩
      rw [byteZero] at zero
      omega
    · exact ⟨.ofNat unit.toNat, List.mem_cons_self, fun zero => low ((byteZero _).mp zero)⟩

/-- A field has exactly the size that was asked for. -/
@[simp] theorem field_length (width : CharWidth) (text : String) (size : Nat) :
    (width.field text size).length = size := by
  -- The units that are kept fit, and zeros fill up the rest.
  have fits : width.unitSize * min (size / width.unitSize) (width.units text).length ≤ size :=
    Nat.le_trans (Nat.mul_le_mul_left _ (Nat.min_le_left _ _)) (Nat.mul_div_le _ _)
  simp only [field, List.length_append, flatMap_unitBytes_length, List.length_take,
    List.length_replicate]
  omega

/-- The field of a text and its terminator holds all units of the text and a zero unit. -/
theorem field_terminatedSize (width : CharWidth) (text : String) :
    width.field text (width.terminatedSize text) =
      (width.units text).flatMap width.unitBytes ++ List.replicate width.unitSize 0 := by
  -- The field has room for the units of the text and one more.
  have room : width.terminatedSize text / width.unitSize = (width.units text).length + 1 := by
    rw [terminatedSize, ← Nat.mul_succ, Nat.mul_div_cancel_left _ width.unitSize_pos]
  simp only [field, room, List.take_of_length_le (Nat.le_succ _), flatMap_unitBytes_length]
  congr 2
  simp only [terminatedSize]
  omega

end QuestScript.CharWidth
