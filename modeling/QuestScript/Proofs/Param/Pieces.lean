import Mathlib
import QuestScript.Param.Grammar

/-! The pieces of a text: what stands before its end, behind its start, in brackets, and between
commas. -/

namespace QuestScript

/-- A text without its end is what stands before it. -/
theorem dropTail?_eq_some {tail text rest : List Char} :
    dropTail? tail text = some rest ↔ text = rest ++ tail := by
  unfold dropTail?
  constructor
  · -- The text has this end, and what is left is in front of it.
    intro found
    obtain ⟨ends, made⟩ := Option.ite_none_right_eq_some.mp found
    obtain ⟨front, rfl⟩ := List.isSuffixOf_iff_suffix.mp ends
    simpa using made
  · rintro rfl
    have ends : tail.isSuffixOf (rest ++ tail) = true :=
      List.isSuffixOf_iff_suffix.mpr (List.suffix_append rest tail)
    simp [ends]

/-- A text without its start is what stands behind it. -/
theorem dropFront?_eq_some {front text rest : List Char} :
    dropFront? front text = some rest ↔ text = front ++ rest := by
  unfold dropFront?
  constructor
  · -- The text has this start, and what is left is behind it.
    intro found
    obtain ⟨starts, made⟩ := Option.ite_none_right_eq_some.mp found
    obtain ⟨back, rfl⟩ := List.isPrefixOf_iff_prefix.mp starts
    simpa using made
  · rintro rfl
    have starts : front.isPrefixOf (front ++ rest) = true :=
      List.isPrefixOf_iff_prefix.mpr (List.prefix_append front rest)
    simp [starts]

/-- The brackets of a tuple are its first and its last. -/
theorem Param.tupleBody?_eq_some {text body : List Char} :
    tupleBody? text = some body ↔ text = "reg(".toList ++ body ++ ")".toList := by
  -- First the start and then the end is dropped.
  simp only [tupleBody?, Option.bind_eq_some_iff, dropFront?_eq_some, dropTail?_eq_some]
  constructor
  · rintro ⟨rest, rfl, rfl⟩
    simp
  · rintro rfl
    exact ⟨body ++ ")".toList, by simp, rfl⟩

/-- There is a piece, even of no text at all. -/
theorem splitCommas_ne_nil (text : List Char) : splitCommas text ≠ [] := by
  cases text with
  | nil => simp [splitCommas]
  | cons c rest =>
    unfold splitCommas
    -- A comma starts a new piece, and another character goes to the first one.
    split
    · simp
    · split <;> simp

/-- The pieces with commas between them are the text. -/
theorem intercalate_splitCommas (text : List Char) :
    [','].intercalate (splitCommas text) = text := by
  induction text with
  | nil => rfl
  | cons c rest ih =>
    obtain ⟨piece, pieces, found⟩ := List.exists_cons_of_ne_nil (splitCommas_ne_nil rest)
    rw [found] at ih
    unfold splitCommas
    split
    · -- A comma ends an empty piece.
      rename_i comma
      rw [found, List.intercalate_cons_cons, ih, comma]
      rfl
    · rw [found]
      -- Any other character joins the piece behind it.
      cases pieces with
      | nil => simpa using ih
      | cons next others =>
        rw [List.intercalate_cons_cons] at ih ⊢
        rw [← ih]
        rfl

/-- No piece has a comma in it. -/
theorem comma_not_mem_of_mem_splitCommas {text piece : List Char}
    (listed : piece ∈ splitCommas text) : ',' ∉ piece := by
  induction text generalizing piece with
  | nil => simp_all [splitCommas]
  | cons c rest ih =>
    unfold splitCommas at listed
    split at listed
    · -- A comma starts an empty piece.
      rcases List.mem_cons.mp listed with rfl | later
      · simp
      · exact ih later
    · -- Another character goes to the first of the pieces behind it.
      rename_i other
      split at listed
      · rename_i first pieces found
        rcases List.mem_cons.mp listed with rfl | later
        · have free := @ih first (by simp [found])
          simp [free, Ne.symm other]
        · exact ih (by simp [found, later])
      · rename_i found
        exact absurd found (splitCommas_ne_nil rest)

/-- All characters but the commas are in the pieces. -/
theorem exists_mem_splitCommas {text : List Char} {c : Char} (inside : c ∈ text)
    (other : c ≠ ',') : ∃ piece ∈ splitCommas text, c ∈ piece := by
  induction text with
  | nil => cases inside
  | cons first rest ih =>
    obtain ⟨front, pieces, found⟩ := List.exists_cons_of_ne_nil (splitCommas_ne_nil rest)
    unfold splitCommas
    rcases List.mem_cons.mp inside with rfl | behind
    · simp [other, found]
    · obtain ⟨piece, listed, within⟩ := ih behind
      rw [found, List.mem_cons] at listed
      -- The first piece may get longer in front, and the others stay as they are.
      split
      · exact ⟨piece, by simp [found, listed], within⟩
      · rw [found]
        rcases listed with rfl | later
        · exact ⟨first :: piece, List.mem_cons_self, List.mem_cons_of_mem _ within⟩
        · exact ⟨piece, List.mem_cons_of_mem _ later, within⟩

/-- A comma ends the pieces of the text in front of it. -/
theorem splitCommas_append (front rest : List Char) :
    splitCommas (front ++ ',' :: rest) = splitCommas front ++ splitCommas rest := by
  induction front with
  | nil => simp [splitCommas]
  | cons c front ih =>
    -- The text in front has a first piece, to which its first character may belong.
    obtain ⟨piece, pieces, found⟩ := List.exists_cons_of_ne_nil (splitCommas_ne_nil front)
    by_cases comma : c = ','
    · simp [splitCommas, ih, comma]
    · simp [splitCommas, ih, comma, found]

/-- A text without commas is a single piece. -/
theorem splitCommas_of_free {text : List Char} (free : ',' ∉ text) : splitCommas text = [text] := by
  induction text with
  | nil => rfl
  | cons c rest ih =>
    -- Neither the first character nor any other one is a comma.
    obtain ⟨other, others⟩ := not_or.mp (free ∘ List.mem_cons.mpr)
    simp [splitCommas, ih others, Ne.symm other]

/-- Texts with commas between them have the pieces of each. -/
theorem splitCommas_intercalate {texts : List (List Char)} (nonempty : texts ≠ []) :
    splitCommas ([','].intercalate texts) = texts.flatMap splitCommas := by
  induction texts with
  | nil => exact absurd rfl nonempty
  | cons text rest ih =>
    -- There is a comma only if another text follows.
    cases rest with
    | nil => simp
    | cons next others =>
      have comma : text ++ [','] ++ [','].intercalate (next :: others) =
          text ++ ',' :: [','].intercalate (next :: others) := by simp
      rw [List.intercalate_cons_cons, comma, splitCommas_append, ih (by simp)]
      rfl

/-- A text is cut into the texts without commas that it is joined from. -/
theorem splitCommas_eq_iff {text : List Char} {texts : List (List Char)} :
    splitCommas text = texts ↔
      texts ≠ [] ∧ text = [','].intercalate texts ∧ ∀ piece ∈ texts, ',' ∉ piece := by
  constructor
  · rintro rfl
    exact ⟨splitCommas_ne_nil text, (intercalate_splitCommas text).symm,
      fun piece listed => comma_not_mem_of_mem_splitCommas listed⟩
  · rintro ⟨nonempty, rfl, free⟩
    -- Each text is a piece of its own.
    have single : texts.flatMap splitCommas = texts.flatMap ([·]) :=
      List.flatMap_congr fun piece listed => splitCommas_of_free (free piece listed)
    rw [splitCommas_intercalate nonempty, single]
    simp

end QuestScript
