import Mathlib
import QuestScript.Text.Blank

/-! Text with white space around it, and what is left when that is taken off. -/

namespace QuestScript

/-- Nothing but white space. -/
def Blank (text : List Char) : Prop := ∀ c ∈ text, isBlank c = true

/-- A text between white space, of which there may be none. -/
def Padded (text core : List Char) : Prop :=
  ∃ front back, text = front ++ core ++ back ∧ Blank front ∧ Blank back

/-- A text that neither starts nor ends with white space. -/
structure Bare (text : List Char) : Prop where
  front : ∀ c ∈ text.head?, isBlank c = false
  back : ∀ c ∈ text.getLast?, isBlank c = false

/-- Nothing at all counts as white space. -/
theorem blank_nil : Blank [] := by simp [Blank]

/-- A space is white space. -/
theorem blank_space : Blank [' '] := by
  intro c inside
  cases List.mem_singleton.mp inside
  rfl

section

variable {text core : List Char}

/-- A text stands between no white space. -/
theorem Padded.refl (text : List Char) : Padded text text :=
  ⟨[], [], by simp, blank_nil, blank_nil⟩

/-- White space in front of a text is passed over. -/
theorem dropWhile_blank_append {front : List Char} (blank : Blank front) :
    (front ++ text).dropWhile isBlank = text.dropWhile isBlank :=
  List.dropWhile_append_of_pos blank

/-- Nothing is passed over in front of a text that does not start with white space. -/
theorem dropWhile_blank_of_front (front : ∀ c ∈ text.head?, isBlank c = false) :
    text.dropWhile isBlank = text := by
  cases text with
  | nil => rfl
  | cons c rest => simp [front c rfl]

/-- What is left does not start with white space. -/
theorem front_dropWhile_blank (text : List Char) :
    ∀ c ∈ (text.dropWhile isBlank).head?, isBlank c = false := by
  intro c first
  -- The first character that is left is the one that ended the search.
  have stops := List.head?_dropWhile_not isBlank text
  rw [Option.mem_def.mp first] at stops
  exact stops

/-- White space around a text is taken off. -/
theorem trimmed_of_padded (padded : Padded text core) (bare : Bare core) : trimmed text = core := by
  obtain ⟨front, back, rfl, blankFront, blankBack⟩ := padded
  rw [trimmed, List.append_assoc, dropWhile_blank_append blankFront]
  cases core with
  | nil =>
    -- All there is behind the front is white space as well.
    rw [List.nil_append, List.dropWhile_eq_nil_iff.mpr blankBack]
    rfl
  | cons c rest =>
    -- The front stops at the text, and the back does, read from its end.
    have stop : (c :: rest ++ back).dropWhile isBlank = c :: rest ++ back :=
      dropWhile_blank_of_front (bare.front · ·)
    have blankEnd : Blank back.reverse := fun c inside => blankBack c (List.mem_reverse.mp inside)
    have last : ∀ last ∈ (c :: rest).reverse.head?, isBlank last = false := by
      rw [List.head?_reverse]
      exact bare.back
    rw [stop, List.reverse_append, dropWhile_blank_append blankEnd, dropWhile_blank_of_front last,
      List.reverse_reverse]

/-- What is taken off is white space. -/
theorem padded_trimmed (text : List Char) : Padded text (trimmed text) := by
  -- White space is taken off in front first, and then behind.
  refine ⟨text.takeWhile isBlank, ((text.dropWhile isBlank).reverse.takeWhile isBlank).reverse, ?_,
    fun c inside => List.mem_takeWhile_imp inside,
    fun c inside => List.mem_takeWhile_imp (List.mem_reverse.mp inside)⟩
  rw [trimmed, List.append_assoc, ← List.reverse_append, List.takeWhile_append_dropWhile,
    List.reverse_reverse, List.takeWhile_append_dropWhile]

/-- All of it is taken off. -/
theorem bare_trimmed (text : List Char) : Bare (trimmed text) := by
  constructor
  · -- The first character that is left was the first one behind the white space in front.
    intro c first
    refine front_dropWhile_blank text c ?_
    obtain ⟨behind, split⟩ : ∃ behind, text.dropWhile isBlank = trimmed text ++ behind := by
      refine ⟨((text.dropWhile isBlank).reverse.takeWhile isBlank).reverse, ?_⟩
      rw [trimmed, ← List.reverse_append, List.takeWhile_append_dropWhile, List.reverse_reverse]
    rw [split, List.head?_append, Option.mem_def.mp first]
    rfl
  · intro c last
    rw [trimmed, List.getLast?_reverse] at last
    exact front_dropWhile_blank _ c last

end

end QuestScript
