import QuestScript.Bytes.Words

/-! Words and the bytes that spell them determine each other. -/

namespace QuestScript

/-- Two bytes spell the word they were read as. -/
theorem wordBytes_wordOfBytes (low high : UInt8) : wordBytes (wordOfBytes low high) = [low, high] := by
  have lowSmall : low.toNat < 256 := low.toNat_lt
  have highSmall : high.toNat < 256 := high.toNat_lt
  -- The sum stays below the size of a word, so that nothing is cut off.
  have value : (wordOfBytes low high).toNat = low.toNat + 256 * high.toNat := by
    simp only [wordOfBytes, UInt16.toNat_ofNat']
    omega
  simp only [wordBytes, value, List.cons.injEq, and_true, ← UInt8.toNat_inj, UInt8.toNat_ofNat']
  omega

/-- A word is read back from its bytes. -/
theorem wordOfBytes_wordBytes (word : UInt16) :
    wordOfBytes (.ofNat word.toNat) (.ofNat (word.toNat / 256)) = word := by
  -- The two bytes are the remainder and the quotient of the word by 256.
  have small : word.toNat < 65536 := word.toNat_lt
  simp only [wordOfBytes, ← UInt16.toNat_inj, UInt16.toNat_ofNat', UInt8.toNat_ofNat']
  omega

/-- Four bytes spell the double word they were read as. -/
theorem doubleWordBytes_doubleWordOfBytes (a b c d : UInt8) :
    doubleWordBytes (doubleWordOfBytes a b c d) = [a, b, c, d] := by
  have aSmall : a.toNat < 256 := a.toNat_lt
  have bSmall : b.toNat < 256 := b.toNat_lt
  have cSmall : c.toNat < 256 := c.toNat_lt
  have dSmall : d.toNat < 256 := d.toNat_lt
  -- As for words, the sum stays below the size of a double word.
  have value : (doubleWordOfBytes a b c d).toNat =
      a.toNat + 256 * b.toNat + 65536 * c.toNat + 16777216 * d.toNat := by
    simp only [doubleWordOfBytes, UInt32.toNat_ofNat']
    omega
  simp only [doubleWordBytes, value, List.cons.injEq, and_true, ← UInt8.toNat_inj,
    UInt8.toNat_ofNat']
  omega

/-- A double word is read back from its bytes. -/
theorem doubleWordOfBytes_doubleWordBytes (word : UInt32) :
    doubleWordOfBytes (.ofNat word.toNat) (.ofNat (word.toNat / 256)) (.ofNat (word.toNat / 65536))
      (.ofNat (word.toNat / 16777216)) = word := by
  -- The four bytes are the digits of the number to the base 256.
  have small : word.toNat < 4294967296 := word.toNat_lt
  simp only [doubleWordOfBytes, ← UInt32.toNat_inj, UInt32.toNat_ofNat', UInt8.toNat_ofNat']
  omega

/-- Bytes hold half as many words. -/
theorem wordsOfBytes_length (bytes : List UInt8) :
    (wordsOfBytes bytes).length = bytes.length / 2 := by
  -- Words are cut off two bytes at a time.
  induction bytes using wordsOfBytes.induct with
  | case1 low high rest ih =>
    simp only [wordsOfBytes, List.length_cons, ih]
    omega
  | case2 short few =>
    -- Without a pair at the front there is at most one byte.
    match short, few with
    | [], _ => rfl
    | [_], _ => simp [wordsOfBytes]
    | low :: high :: rest, few => exact absurd rfl (few low high rest)

/-- Words are read back from their bytes, whatever follows them. -/
theorem wordsOfBytes_append (words : List UInt16) (rest : List UInt8) :
    wordsOfBytes (words.flatMap wordBytes ++ rest) = words ++ wordsOfBytes rest := by
  induction words with
  | nil => rfl
  | cons word words ih =>
    -- The first two bytes give back the first word, and the others follow.
    have first : wordOfBytes (.ofNat word.toNat) (.ofNat (word.toNat / 256)) = word :=
      wordOfBytes_wordBytes word
    simp only [List.flatMap_cons, wordBytes, List.cons_append, List.nil_append, wordsOfBytes, first]
    exact congrArg (word :: ·) ih

/-- The first words in some bytes are spelled by the bytes at their front. -/
theorem take_wordsOfBytes_flatMap (bytes : List UInt8) :
    ∀ count, count ≤ bytes.length / 2 →
      ((wordsOfBytes bytes).take count).flatMap wordBytes = bytes.take (2 * count) := by
  induction bytes using wordsOfBytes.induct with
  | case1 low high rest ih =>
    intro count enough
    cases count with
    | zero => simp
    | succ count =>
      simp only [List.length_cons] at enough
      -- One more word takes the two bytes in front.
      have two : 2 * (count + 1) = 2 * count + 1 + 1 := by omega
      rw [two]
      simp only [wordsOfBytes, List.take_succ_cons, List.flatMap_cons, wordBytes_wordOfBytes,
        ih count (by omega), List.cons_append, List.nil_append]
  | case2 short few =>
    intro count enough
    -- No pair fits into at most one byte.
    match short, few with
    | [], _ => simp [wordsOfBytes]
    | [_], _ =>
      have none : count = 0 := by simpa using enough
      simp [none]
    | low :: high :: rest, few => exact absurd rfl (few low high rest)

end QuestScript
