import Mathlib
import QuestScript.Text.Utf16

/-! UTF-16 units and the characters they stand for determine each other. -/

namespace QuestScript.Utf16

/-- A number that is no surrogate and no more than 21 bits long is the number of its character. -/
theorem toNat_ofNat {number : Nat} (valid : number.isValidChar) :
    (Char.ofNat number).toNat = number := by
  -- Such a number has a character of its own and is not replaced by another.
  simp only [Char.ofNat, dif_pos valid, Char.ofNatAux, Char.toNat, UInt32.toNat]
  rfl

/-- A character of the basic plane is no surrogate. -/
theorem basic_not_surrogate {c : Char} (basic : c.toNat < 0x10000) :
    isLow (.ofNat c.toNat) = false ∧ isHigh (.ofNat c.toNat) = false := by
  have valid : c.toNat.isValidChar := c.valid
  have value : (UInt16.ofNat c.toNat).toNat = c.toNat := UInt16.toNat_ofNat_of_lt' basic
  simp only [isLow, isHigh, value, Bool.and_eq_false_iff, decide_eq_false_iff_not]
  -- Numbers of characters leave out exactly the range of the surrogates.
  rcases valid with below | ⟨above, _⟩ <;> omega

/-- The two units of a character beyond the basic plane open and close a surrogate pair. -/
theorem pair_surrogates {c : Char} (beyond : ¬c.toNat < 0x10000) :
    (UInt16.ofNat (0xD800 + (c.toNat - 0x10000) / 0x400)).toNat =
        0xD800 + (c.toNat - 0x10000) / 0x400 ∧
      (UInt16.ofNat (0xDC00 + (c.toNat - 0x10000) % 0x400)).toNat =
        0xDC00 + (c.toNat - 0x10000) % 0x400 ∧
      (c.toNat - 0x10000) / 0x400 < 0x400 := by
  have valid : c.toNat.isValidChar := c.valid
  -- There are no more than 2 ^ 20 characters beyond the basic plane.
  have bound : c.toNat < 0x110000 := by rcases valid with below | ⟨_, below⟩ <;> omega
  simp only [UInt16.toNat_ofNat']
  omega

/-- A unit that is no surrogate is read as the character of its number. -/
theorem decode_basic {unit : UInt16} (notLow : isLow unit = false) (notHigh : isHigh unit = false)
    (units : List UInt16) :
    decode (unit :: units) = (decode units).map (Char.ofNat unit.toNat :: ·) := by
  rw [decode.eq_def]
  simp only [notLow, notHigh, Bool.false_eq_true, if_false]

/-- A unit that opens a pair does not close one. -/
theorem isLow_of_isHigh {unit : UInt16} (opens : isHigh unit = true) : isLow unit = false := by
  -- The ranges of both halves do not meet.
  simp only [isHigh, Bool.and_eq_true, decide_eq_true_eq] at opens
  simp only [isLow, Bool.and_eq_false_iff, decide_eq_false_iff_not]
  omega

/-- Two units that open and close a pair are read as one character. -/
theorem decode_pair {high low : UInt16} (opens : isHigh high = true) (closes : isLow low = true)
    (units : List UInt16) :
    decode (high :: low :: units) = (decode units).map (pairChar high low :: ·) := by
  rw [decode.eq_def]
  simp only [isLow_of_isHigh opens, opens, closes, Bool.false_eq_true, if_false, if_true]

/-- A character is read from its units, whatever follows them. -/
theorem decode_encodeChar (c : Char) (units : List UInt16) :
    decode (encodeChar c ++ units) = (decode units).map (c :: ·) := by
  by_cases basic : c.toNat < 0x10000
  · -- A single unit is no surrogate, so that it stands for itself.
    obtain ⟨notLow, notHigh⟩ := basic_not_surrogate basic
    have value : (UInt16.ofNat c.toNat).toNat = c.toNat := UInt16.toNat_ofNat_of_lt' basic
    simp only [encodeChar, basic, if_true, List.cons_append, List.nil_append,
      decode_basic notLow notHigh, value, Char.ofNat_toNat]
  · -- The halves of a pair give back the index that was split between them.
    obtain ⟨high, low, few⟩ := pair_surrogates basic
    have opens : isHigh (.ofNat (0xD800 + (c.toNat - 0x10000) / 0x400)) = true := by
      simp only [isHigh, high, Bool.and_eq_true, decide_eq_true_eq]
      omega
    have closes : isLow (.ofNat (0xDC00 + (c.toNat - 0x10000) % 0x400)) = true := by
      simp only [isLow, low, Bool.and_eq_true, decide_eq_true_eq]
      omega
    have same : pairChar (.ofNat (0xD800 + (c.toNat - 0x10000) / 0x400))
        (.ofNat (0xDC00 + (c.toNat - 0x10000) % 0x400)) = c := by
      simp only [pairChar, high, low]
      rw [show 0x10000 + (0xD800 + (c.toNat - 0x10000) / 0x400 - 0xD800) * 0x400 +
        (0xDC00 + (c.toNat - 0x10000) % 0x400 - 0xDC00) = c.toNat by omega]
      exact Char.ofNat_toNat c
    simp only [encodeChar, basic, if_false, List.cons_append, List.nil_append,
      decode_pair opens closes, same]

/-- A text is read from its units. -/
theorem decode_encode (text : List Char) : decode (encode text) = some text := by
  -- The characters are read one after the other, each from its own units.
  induction text with
  | nil => rfl
  | cons c rest ih =>
    have step : decode (encode (c :: rest)) = (decode (encode rest)).map (c :: ·) :=
      decode_encodeChar c (encode rest)
    rw [step, ih]
    rfl

/-- A unit that is no surrogate is spelled again by the character it stands for. -/
theorem encodeChar_basic {unit : UInt16} (notLow : isLow unit = false)
    (notHigh : isHigh unit = false) : encodeChar (Char.ofNat unit.toNat) = [unit] := by
  have small : unit.toNat < 65536 := unit.toNat_lt
  have value : (Char.ofNat unit.toNat).toNat = unit.toNat := by
    refine toNat_ofNat ?_
    simp only [isLow, isHigh, Bool.and_eq_false_iff, decide_eq_false_iff_not] at notLow notHigh
    -- What is neither half of a pair lies below or above all surrogates.
    rcases Nat.lt_or_ge unit.toNat 0xD800 with below | above
    · exact Or.inl below
    · exact Or.inr (by omega)
  simp [encodeChar, value, show unit.toNat < 0x10000 from small]

/-- A surrogate pair is spelled again by the character it stands for. -/
theorem encodeChar_pairChar {high low : UInt16} (opens : isHigh high = true)
    (closes : isLow low = true) : encodeChar (pairChar high low) = [high, low] := by
  simp only [isHigh, isLow, Bool.and_eq_true, decide_eq_true_eq] at opens closes
  -- The index of a pair starts behind the basic plane.
  have value : (pairChar high low).toNat =
      0x10000 + (high.toNat - 0xD800) * 0x400 + (low.toNat - 0xDC00) :=
    toNat_ofNat (Or.inr (by omega))
  have beyond : ¬(pairChar high low).toNat < 0x10000 := by omega
  rw [encodeChar, if_neg beyond]
  simp only [List.cons.injEq, and_true, ← UInt16.toNat_inj, UInt16.toNat_ofNat', value]
  omega

/-- Units that can be read are spelled again by the text they stand for. -/
theorem encode_decode {units : List UInt16} {text : List Char}
    (read : decode units = some text) : encode text = units := by
  -- A stray half of a pair ends the reading, so that every unit read is whole or in a pair.
  fun_induction decode units generalizing text with
  | case1 =>
    simp only [Option.some.injEq] at read
    simp [← read, encode]
  | case2 unit rest low => simp at read
  | case3 unit notLow opens low rest closes ih =>
    -- A pair is one character, which is spelled as the same pair.
    obtain ⟨others, decoded, rfl⟩ := Option.map_eq_some_iff.mp read
    simp only [encode, List.flatMap_cons, encodeChar_pairChar opens closes]
    exact congrArg (fun tail => unit :: low :: tail) (ih decoded)
  | case4 unit notLow opens low rest alone => simp at read
  | case5 unit notLow opens => simp at read
  -- A single unit is spelled as the same unit.
  | case6 unit rest notLow notHigh ih =>
    obtain ⟨others, decoded, rfl⟩ := Option.map_eq_some_iff.mp read
    simp only [encode, List.flatMap_cons, encodeChar_basic (by simpa using notLow)
      (by simpa using notHigh)]
    exact congrArg (unit :: ·) (ih decoded)

/-- Only the character zero is spelled with a zero unit. -/
theorem zero_mem_encodeChar {c : Char} : 0 ∈ encodeChar c ↔ c = '\x00' := by
  by_cases basic : c.toNat < 0x10000
  -- A character of the basic plane is its own unit.
  · have value : (UInt16.ofNat c.toNat).toNat = c.toNat := UInt16.toNat_ofNat_of_lt' basic
    simp only [encodeChar, basic, if_true, List.mem_singleton, ← UInt16.toNat_inj, value,
      UInt16.toNat_zero]
    rw [← Char.toNat_inj]
    exact eq_comm
  · -- Both halves of a pair lie above zero.
    obtain ⟨high, low, few⟩ := pair_surrogates basic
    have notZero : c ≠ '\x00' := by
      rintro rfl
      exact basic (by decide)
    simp only [encodeChar, basic, if_false, List.mem_cons, List.not_mem_nil, or_false,
      ← UInt16.toNat_inj, high, low, UInt16.toNat_zero, notZero, iff_false]
    omega

/-- A text without the character zero has no zero unit. -/
theorem zero_mem_encode {text : List Char} : 0 ∈ encode text ↔ '\x00' ∈ text := by
  simp only [encode, List.mem_flatMap, zero_mem_encodeChar, exists_eq_right]

end QuestScript.Utf16
