import QuestScript.Bytes.Reader
import QuestScript.Proofs.Steps
import QuestScript.Proofs.Text.Width

/-! What readers read: every value is spelled by the bytes that are read for it. -/

namespace QuestScript

namespace Reader

/-- A reader that moves over some bytes. -/
structure Moves (reader : Reader) (bytes : List UInt8) (next : Reader) : Prop where
  rest : reader.rest = bytes ++ next.rest
  position : next.position = reader.position + bytes.length

/-- A reader that stays where it is moves over nothing. -/
theorem Moves.refl (reader : Reader) : reader.Moves [] reader := ⟨rfl, rfl⟩

/-- A reader that moves twice moves over the bytes of both ways. -/
theorem Moves.trans {reader middle next : Reader} {front back : List UInt8}
    (first : reader.Moves front middle) (second : middle.Moves back next) :
    reader.Moves (front ++ back) next := by
  -- What the first way leaves unread is what the second one starts with.
  refine ⟨?_, ?_⟩
  · rw [first.rest, second.rest, List.append_assoc]
  · rw [second.position, first.position, List.length_append, Nat.add_assoc]

/-- A range inside the data is read from its bytes. -/
theorem within_eq {data : List UInt8} {start stop : Nat} (ordered : start ≤ stop)
    (inside : stop ≤ data.length) :
    within data start stop = ⟨start, (data.take stop).drop start⟩ := by
  simp only [within, Nat.min_eq_left inside, Nat.min_eq_left ordered]

/-- A byte is read from itself. -/
theorem moves_of_u8 {reader next : Reader} {byte : UInt8} (read : u8 reader = .ok byte next) :
    reader.Moves [byte] next := by
  -- There is a byte to be read, as the reader succeeds.
  unfold u8 at read
  split at read
  · rename_i first rest front
    cases read
    exact ⟨front, rfl⟩
  · cases read

/-- A word is read from its two bytes. -/
theorem moves_of_u16 {reader next : Reader} {word : UInt16} (read : u16 reader = .ok word next) :
    reader.Moves (wordBytes word) next := by
  -- Two bytes make up any word, and these are the ones that it is made up of.
  unfold u16 at read
  split at read
  · rename_i low high rest front
    cases read
    rw [wordBytes_wordOfBytes]
    exact ⟨front, rfl⟩
  · cases read

/-- A double word is read from its four bytes. -/
theorem moves_of_u32 {reader next : Reader} {word : UInt32} (read : u32 reader = .ok word next) :
    reader.Moves (doubleWordBytes word) next := by
  -- The four bytes are those of the double word that they make up.
  unfold u32 at read
  split at read
  · rename_i a b c d rest front
    cases read
    rw [doubleWordBytes_doubleWordOfBytes]
    exact ⟨front, rfl⟩
  · cases read

/-- A word is read back from its bytes. -/
theorem u16_wordBytes (position : Nat) (word : UInt16) (rest : List UInt8) :
    u16 ⟨position, wordBytes word ++ rest⟩ = .ok word ⟨position + 2, rest⟩ := by
  simp only [u16, wordBytes, List.cons_append, List.nil_append, wordOfBytes_wordBytes]

/-- A double word is read back from its bytes. -/
theorem u32_doubleWordBytes (position : Nat) (word : UInt32) (rest : List UInt8) :
    u32 ⟨position, doubleWordBytes word ++ rest⟩ = .ok word ⟨position + 4, rest⟩ := by
  simp only [u32, doubleWordBytes, List.cons_append, List.nil_append,
    doubleWordOfBytes_doubleWordBytes]

/-- What is split off stood in front of the others. -/
theorem splitExact_eq_some {count : Nat} {bytes taken rest : List UInt8}
    (split : splitExact count bytes = some (taken, rest)) :
    taken.length = count ∧ bytes = taken ++ rest := by
  -- One byte after the other moves from the front of the rest to the end of what is split off.
  induction count generalizing bytes taken with
  | zero =>
    simp only [splitExact, Option.some.injEq, Prod.mk.injEq] at split
    obtain ⟨rfl, rfl⟩ := split
    exact ⟨rfl, rfl⟩
  | succ count ih =>
    cases bytes with
    | nil => simp [splitExact] at split
    | cons byte bytes =>
      simp only [splitExact, Option.map_eq_some_iff] at split
      obtain ⟨⟨front, left⟩, found, same⟩ := split
      simp only [Prod.mk.injEq] at same
      obtain ⟨rfl, rfl⟩ := same
      obtain ⟨size, rfl⟩ := ih found
      exact ⟨by simp [size], rfl⟩

/-- Bytes in front of others can be split off. -/
theorem splitExact_append (taken rest : List UInt8) :
    splitExact taken.length (taken ++ rest) = some (taken, rest) := by
  -- The bytes are split off one after the other.
  induction taken with
  | nil => rfl
  | cons byte taken ih => simp [splitExact, ih]

/-- Taken bytes are as many as were asked for. -/
theorem moves_of_take {count : Nat} {reader next : Reader} {taken : List UInt8}
    (read : take count reader = .ok taken next) :
    taken.length = count ∧ reader.Moves taken next := by
  -- What is taken and what is left make up what there was.
  unfold take at read
  split at read
  · rename_i front rest split
    cases read
    obtain ⟨size, joined⟩ := splitExact_eq_some split
    exact ⟨size, joined, by rw [size]⟩
  · cases read

/-- Bytes in front of others can be taken. -/
theorem take_append (position : Nat) (taken rest : List UInt8) :
    take taken.length ⟨position, taken ++ rest⟩ = .ok taken ⟨position + taken.length, rest⟩ := by
  simp only [take, splitExact_append]

/-- Words are read from their bytes. -/
theorem moves_of_u16s {count : Nat} {reader next : Reader} {words : List UInt16}
    (read : u16s count reader = .ok words next) :
    words.length = count ∧ reader.Moves (words.flatMap wordBytes) next := by
  obtain ⟨taken, middle, took, last⟩ := bind_eq_ok read
  obtain ⟨rfl, rfl⟩ := pure_eq_ok last
  obtain ⟨size, moved⟩ := moves_of_take took
  -- An even number of bytes is spelled completely by its words.
  have spelled : (wordsOfBytes taken).flatMap wordBytes = taken := by
    have all := take_wordsOfBytes_flatMap taken count (by omega)
    rwa [← size, List.take_length, List.take_of_length_le] at all
    rw [wordsOfBytes_length, size]
    omega
  refine ⟨by rw [wordsOfBytes_length, size]; omega, ?_⟩
  rwa [spelled]

/-- Words are read back from their bytes. -/
theorem u16s_flatMap (position : Nat) (words : List UInt16) (rest : List UInt8) :
    u16s words.length ⟨position, words.flatMap wordBytes ++ rest⟩ =
      .ok words ⟨position + 2 * words.length, rest⟩ := by
  -- The bytes of the words are taken together, and paired again.
  have size : (words.flatMap wordBytes).length = 2 * words.length :=
    CharWidth.flatMap_unitBytes_length .wide words
  have took := take_append position (words.flatMap wordBytes) rest
  rw [size] at took
  rw [u16s, bind_of_ok took]
  have same : wordsOfBytes (words.flatMap wordBytes) = words := by
    simpa [wordsOfBytes] using wordsOfBytes_append words []
  rw [same]
  rfl

/-- The units before the first zero are all of them, or a zero follows them. -/
theorem takeWhile_ne_zero (units : List UInt16) :
    units.takeWhile (· != 0) = units ∨
      (units.takeWhile (· != 0)).length + 1 ≤ units.length ∧
        units.take ((units.takeWhile (· != 0)).length + 1) = units.takeWhile (· != 0) ++ [0] := by
  induction units with
  | nil => exact .inl rfl
  | cons unit units ih =>
    -- The first zero ends the text; before it, every unit belongs to the text.
    by_cases zero : unit = 0
    · subst zero
      exact .inr ⟨by simp, by simp⟩
    · have kept : (unit != 0) = true := by simpa using zero
      rw [List.takeWhile_cons_of_pos (p := (· != 0)) kept]
      rcases ih with all | ⟨room, taken⟩
      · exact .inl (by rw [all])
      · exact .inr ⟨Nat.succ_le_succ room, congrArg (unit :: ·) taken⟩

/-- No zero stands among the units before the first zero. -/
theorem zero_not_mem_takeWhile (units : List UInt16) : 0 ∉ units.takeWhile (· != 0) := by
  -- Otherwise it would have passed the test, which it does not.
  intro found
  have kept := List.all_eq_true.mp (List.all_takeWhile (p := (· != 0)) (l := units)) 0 found
  simp at kept

/-- A text that was read can be stored in one unit for each character of a narrow string. -/
theorem latin_of_text? {units : List UInt16} {text : String}
    (read : CharWidth.narrow.text? units = some text) : ∀ c ∈ text.toList, c.toNat ≤ 0xFF := by
  simp only [CharWidth.text?, Option.some.injEq] at read
  subst read
  intro c found
  rw [String.toList_ofList] at found
  -- Every character comes from a unit, of which only the low byte counts.
  obtain ⟨unit, -, rfl⟩ := List.mem_map.mp found
  rw [Utf16.toNat_ofNat (Or.inl (by omega))]
  omega

/-- Units within a limit stand at the front of the bytes. -/
theorem front_units (width : CharWidth) (limit : Nat) (bytes : List UInt8) (count : Nat)
    (enough : count ≤ (width.unitsOfBytes (bytes.take limit)).length) :
    bytes = ((width.unitsOfBytes (bytes.take limit)).take count).flatMap width.unitBytes ++
      bytes.drop (width.unitSize * count) := by
  rw [CharWidth.unitsOfBytes_length] at enough
  -- Whole units within the limit take no more bytes than the limit leaves.
  have room : width.unitSize * count ≤ (bytes.take limit).length :=
    Nat.le_trans (Nat.mul_le_mul_left _ enough) (Nat.mul_div_le _ _)
  rw [List.length_take] at room
  rw [CharWidth.take_unitsOfBytes_flatMap width _ count enough, List.take_take,
    Nat.min_eq_left (by omega), List.take_append_drop]

/-- A reader that skips units within a limit moves over their bytes. -/
theorem moves_skip_units (width : CharWidth) (limit : Nat) (reader : Reader) (count : Nat)
    (enough : count ≤ (width.unitsOfBytes (reader.rest.take limit)).length) :
    reader.Moves (((width.unitsOfBytes (reader.rest.take limit)).take count).flatMap width.unitBytes)
      (reader.skip (width.unitSize * count)) := by
  refine ⟨front_units width limit reader.rest count enough, ?_⟩
  -- As many units are skipped as were asked for.
  rw [CharWidth.flatMap_unitBytes_length, List.length_take, Nat.min_eq_left enough]
  rfl

/-- A zero unit is spelled by zeros. -/
theorem unitBytes_zero (width : CharWidth) :
    width.unitBytes 0 = List.replicate width.unitSize 0 := by
  cases width <;> rfl

/-- The units of a string are those before the first zero, and each has a character. -/
theorem units_of_string {width : CharWidth} {limit : Nat} {whole : Bool} {reader next : Reader}
    {text : String} (read : string width limit whole reader = .ok text next) :
    width.units text = (width.unitsOfBytes (reader.rest.take limit)).takeWhile (· != 0) ∧
      '\x00' ∉ text.toList ∧ (width = .narrow → ∀ c ∈ text.toList, c.toNat ≤ 0xFF) := by
  unfold string at read
  dsimp only at read
  have held := CharWidth.holds_unitsOfBytes width (reader.rest.take limit)
  generalize width.unitsOfBytes (reader.rest.take limit) = units at read held
  split at read
  case h_2 => cases read
  case h_1 value spelled =>
    cases read
    -- Units of one byte hold a byte, so that the text spells them as they were.
    have body : width.units text = units.takeWhile (· != 0) :=
      CharWidth.units_of_text? (fun narrow unit inside =>
        held narrow unit ((List.takeWhile_sublist _).subset inside)) spelled
    refine ⟨body, ?_, ?_⟩
    -- A character zero would be a zero unit, and the text ends before the first of those.
    · rw [← CharWidth.zero_mem_units width, body]
      exact zero_not_mem_takeWhile units
    · rintro rfl
      exact latin_of_text? spelled

/-- A string is read from the units of its text, and from a zero unit after them.

The zero unit is missing only where the limit or the end of the bytes comes before it. -/
theorem moves_of_string {width : CharWidth} {limit : Nat} {reader next : Reader} {text : String}
    (read : string width limit false reader = .ok text next) :
    '\x00' ∉ text.toList ∧ (width = .narrow → ∀ c ∈ text.toList, c.toNat ≤ 0xFF) ∧
      ((width.terminatedSize text ≤ limit ∧
          reader.Moves ((width.units text).flatMap width.unitBytes ++
            List.replicate width.unitSize 0) next) ∨
        ((limit < width.terminatedSize text ∨ next.rest.length < width.unitSize) ∧
          reader.Moves ((width.units text).flatMap width.unitBytes) next)) := by
  obtain ⟨body, noZero, latin⟩ := units_of_string read
  refine ⟨noZero, latin, ?_⟩
  simp only [string, Bool.false_eq_true, if_false] at read
  have skipped := moves_skip_units width limit reader
  have size := CharWidth.unitsOfBytes_length width (reader.rest.take limit)
  generalize width.unitsOfBytes (reader.rest.take limit) = units at read skipped size body
  split at read
  case h_2 => cases read
  case h_1 value spelled =>
    cases read
    rw [List.length_take] at size
    have unitPos := width.unitSize_pos
    -- Whole units take up no more than the bytes within the limit.
    have whole := Nat.mul_div_le (min limit reader.rest.length) width.unitSize
    rcases takeWhile_ne_zero units with all | ⟨count, taken⟩
    · -- All units are text, so that there was no room for the terminator.
      have moved := skipped units.length (Nat.le_refl _)
      rw [all, Nat.min_eq_right (Nat.le_succ _)]
      rw [List.take_length] at moved
      rw [body, all]
      refine .inr ⟨?_, moved⟩
      -- One unit more would not have fitted within the limit or the bytes.
      have last := Nat.lt_mul_div_succ (min limit reader.rest.length) unitPos
      simp only [CharWidth.terminatedSize, body, all, skip, List.length_drop, size,
        Nat.mul_succ] at last ⊢
      omega
    · -- The text and its terminator are units within the limit.
      have moved := skipped _ count
      rw [Nat.min_eq_left count]
      rw [taken, List.flatMap_append, List.flatMap_singleton, unitBytes_zero] at moved
      rw [body]
      refine .inl ⟨?_, moved⟩
      -- The terminator is one of the units, so that its bytes lie within the limit too.
      have fits := Nat.mul_le_mul_left width.unitSize count
      simp only [CharWidth.terminatedSize, body, Nat.mul_succ, size] at fits ⊢
      omega

/-- A text that fits under the limit is read back from its bytes and its terminator. -/
theorem string_append {width : CharWidth} {limit : Nat} {text : String}
    (noZero : '\x00' ∉ text.toList) (latin : width = .narrow → ∀ c ∈ text.toList, c.toNat ≤ 0xFF)
    (fits : width.terminatedSize text ≤ limit) (position : Nat) (rest : List UInt8) :
    string width limit false ⟨position, (width.units text).flatMap width.unitBytes ++
        List.replicate width.unitSize 0 ++ rest⟩ =
      .ok text ⟨position + width.terminatedSize text, rest⟩ := by
  have size : ((width.units text).flatMap width.unitBytes ++
      List.replicate width.unitSize 0).length = width.terminatedSize text := by
    rw [List.length_append, CharWidth.flatMap_unitBytes_length, List.length_replicate]
    rfl
  -- The limit cuts off nothing of the text and its terminator.
  have span : ((width.units text).flatMap width.unitBytes ++ List.replicate width.unitSize 0 ++
      rest).take limit = (width.units text ++ [0]).flatMap width.unitBytes ++
        rest.take (limit - width.terminatedSize text) := by
    rw [List.take_append, List.take_of_length_le (by omega), size, List.flatMap_append,
      List.flatMap_singleton, unitBytes_zero]
  -- A terminator can be stored in a unit of any width.
  have held : width.Holds (width.units text ++ [0]) := by
    intro narrow unit found
    rcases List.mem_append.mp found with inside | last
    · exact CharWidth.holds_units width text narrow unit inside
    · rw [List.mem_singleton.mp last]
      decide
  -- The first zero is the terminator, so that all before it is text.
  have body : (width.unitsOfBytes (((width.units text).flatMap width.unitBytes ++
      List.replicate width.unitSize 0 ++ rest).take limit)).takeWhile (· != 0) =
        width.units text := by
    rw [span, CharWidth.unitsOfBytes_append held, List.append_assoc,
      List.takeWhile_append_of_pos (CharWidth.units_ne_zero noZero)]
    simp
  have room : (width.units text).length + 1 ≤ (width.unitsOfBytes
      (((width.units text).flatMap width.unitBytes ++ List.replicate width.unitSize 0 ++
        rest).take limit)).length := by
    rw [span, CharWidth.unitsOfBytes_append held]
    simp only [List.length_append, List.length_cons, List.length_nil]
    omega
  -- The reader stops right after the terminator.
  have used : width.unitSize * ((width.units text).length + 1) = width.terminatedSize text :=
    Nat.mul_succ _ _
  simp only [string, body, Bool.false_eq_true, if_false, CharWidth.text?_units latin,
    Nat.min_eq_left room, used, skip]
  rw [← size, List.drop_left]

end Reader

end QuestScript
