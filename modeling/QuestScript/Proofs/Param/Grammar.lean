import Mathlib
import QuestScript.Proofs.Param.Pieces
import QuestScript.Proofs.Text.Blank

/-! The texts that spell a parameter, and the parameter that each of them spells.

The grammar is stated apart from the reader, which looks for the dots, for the brackets and for a
colon in this order. The two agree on every text, and the reader never puts one list into
another. -/

namespace QuestScript

/-- A name with the mark for a way to use a register, if there is one. -/
def withMark (name : List Char) (access : Option Access) : List Char :=
  name ++ access.elim [] fun access => ':' :: access.mark.toList

/-- A scalar type with its mark. -/
def ScalarType.text (type : ScalarType) (access : Option Access) : List Char :=
  withMark type.name.toList access

/-- The texts of one register of a tuple, with white space around them. -/
inductive TupleElement.Spells : List Char → TupleElement → Prop where
  | intro {text : List Char} (type : ScalarType) (access : Option Access)
    (padded : Padded text (type.text access)) : Spells text ⟨type, access.getD .read⟩

namespace Param

/-- The texts of parameters that are not variadic. -/
inductive SpellsItem : List Char → Param → Prop where
  | scalar (type : ScalarType) (access : Option Access) :
    SpellsItem (type.text access) { item := .scalar type, access }
  | register (access : Option Access) :
    SpellsItem (withMark "reg".toList access)
      { item := .register, access := some (access.getD .read) }
  | tuple {texts : List (List Char)} {elements : List TupleElement} (nonempty : texts ≠ [])
    (each : List.Forall₂ TupleElement.Spells texts elements) :
    SpellsItem ("reg(".toList ++ [','].intercalate texts ++ ")".toList) { item := .tuple elements }

/-- The texts of parameters. -/
inductive Spells : List Char → Param → Prop where
  | single {text : List Char} {param : Param} (item : SpellsItem text param) : Spells text param
  | variadic {text blanks : List Char} {param : Param} (item : SpellsItem text param)
    (blank : Blank blanks) :
    Spells (text ++ blanks ++ "...".toList) { param with variadic := true }

end Param

/-! ### Names and marks -/

/-- The characters of names and marks. -/
def isNameChar (c : Char) : Bool := c.isLower || c == ':'

/-- White space is not part of a name. -/
theorem isBlank_of_isNameChar {c : Char} (named : isNameChar c = true) : isBlank c = false := by
  simp only [isNameChar, Char.isLower, Bool.or_eq_true, Bool.and_eq_true, decide_eq_true_eq,
    beq_iff_eq] at named
  rcases named with ⟨low, high⟩ | rfl
  · -- Small letters come after all white space of one byte, and before all that is longer.
    have least : 97 ≤ c.toNat := low
    have most : c.toNat ≤ 122 := high
    simp only [isBlank, blankRanges, List.any_cons, List.any_nil, Bool.or_eq_false_iff,
      Bool.and_eq_false_iff, decide_eq_false_iff_not, and_true]
    omega
  · rfl

/-- Marks are made of letters. -/
theorem Access.isLower_of_mem_mark (access : Access) : ∀ c ∈ access.mark.toList, c.isLower := by
  cases access <;> simp [mark]

/-- Names are made of letters. -/
theorem ScalarType.isLower_of_mem_name (type : ScalarType) : ∀ c ∈ type.name.toList, c.isLower := by
  -- Every name is given, with one more for each kind of label.
  cases type with
  | label kind => cases kind <;> simp [name]
  | byte | word | dword | float | string | pointer | any => simp [name]

/-- A name of letters stays a name with its mark. -/
theorem isNameChar_of_mem_withMark {name : List Char} {access : Option Access} {c : Char}
    (letters : ∀ c ∈ name, c.isLower) (inside : c ∈ withMark name access) :
    isNameChar c = true := by
  cases access with
  | none => simp_all [withMark, isNameChar]
  | some access =>
    have mark := access.isLower_of_mem_mark c
    simp only [withMark, Option.elim_some, List.mem_append, List.mem_cons] at inside
    -- A character is in the name, is the colon, or is in the mark.
    rcases inside with named | rfl | marked
    · simp [isNameChar, letters c named]
    · rfl
    · simp [isNameChar, mark marked]

/-- A mark is read as the way to use a register that it stands for. -/
theorem Access.ofMark?_eq_some {mark : List Char} {access : Access} :
    ofMark? mark = some access ↔ mark = access.mark.toList := by
  constructor
  · -- A search only finds what has this mark, and finds each one.
    intro found
    have named := List.find?_some found
    exact (beq_iff_eq.mp named).symm
  · rintro rfl
    cases access <;> rfl

/-- A name is read as the scalar type that it stands for. -/
theorem ScalarType.ofName?_eq_some {name : List Char} {type : ScalarType} :
    ofName? name = some type ↔ name = type.name.toList := by
  constructor
  · -- A search only finds what has this name, and finds each one.
    intro found
    have named := List.find?_some found
    exact (beq_iff_eq.mp named).symm
  · rintro rfl
    cases type with
    | label kind => cases kind <;> rfl
    | byte | word | dword | float | string | pointer | any => rfl

namespace Param

variable {text : List Char}

/-- A text is cut at its first colon. -/
theorem marked?_eq_some {name : List Char} {access : Option Access} :
    marked? text = some (name, access) ↔ text = withMark name access ∧ ':' ∉ name := by
  have split := List.takeWhile_append_dropWhile (p := (· != ':')) (l := text)
  have before : ':' ∉ text.takeWhile (· != ':') := fun inside => by
    simpa using List.mem_takeWhile_imp inside
  constructor
  · intro read
    unfold marked? at read
    split at read
    · -- There is no colon.
      rename_i none
      cases read
      exact ⟨by simp [withMark], fun inside =>
        by simpa using List.dropWhile_eq_nil_iff.mp none ':' inside⟩
    · rename_i c mark found
      obtain ⟨found', marked, made⟩ := Option.map_eq_some_iff.mp read
      cases made
      have colon : c = ':' := by
        have stops := List.head?_dropWhile_not (· != ':') text
        simpa [found] using stops
      rw [found, colon, Access.ofMark?_eq_some.mp marked] at split
      exact ⟨split.symm, before⟩
  · rintro ⟨rfl, free⟩
    -- The name is passed over whole, because no colon is in it.
    have passed : ∀ c ∈ name, (c != ':') = true := by
      intro c inside
      rw [bne_iff_ne]
      rintro rfl
      exact free inside
    cases access with
    | none =>
      have all : name.dropWhile (· != ':') = [] := List.dropWhile_eq_nil_iff.mpr passed
      simp [marked?, withMark, all]
    | some access =>
      have known : Access.ofMark? access.mark.toList = some access :=
        Access.ofMark?_eq_some.mpr rfl
      simp [marked?, withMark, List.dropWhile_append_of_pos passed,
        List.takeWhile_append_of_pos passed, known]

end Param

/-! ### Items -/

/-- The texts of scalar types are made of letters and a colon. -/
theorem ScalarType.isNameChar_of_mem_text {type : ScalarType} {access : Option Access} {c : Char}
    (inside : c ∈ type.text access) : isNameChar c = true :=
  isNameChar_of_mem_withMark type.isLower_of_mem_name inside

/-- A name of letters has no colon. -/
theorem colon_not_mem {name : List Char} (letters : ∀ c ∈ name, c.isLower) : ':' ∉ name := by
  intro inside
  simpa using letters ':' inside

/-- A text of letters and a colon has no white space at its ends. -/
theorem bare_of_isNameChar {text : List Char} (named : ∀ c ∈ text, isNameChar c = true) :
    Bare text :=
  ⟨fun c first => isBlank_of_isNameChar (named c (List.mem_of_mem_head? first)),
    fun c last => isBlank_of_isNameChar (named c (List.mem_of_mem_getLast? last))⟩

/-- Related lists have something related to each item. -/
theorem exists_of_mem_forall₂ {α β : Type} {Related : α → β → Prop} {items : List α}
    {values : List β} (each : List.Forall₂ Related items values) {item : α}
    (listed : item ∈ items) : ∃ value ∈ values, Related item value := by
  induction each with
  | nil => cases listed
  | @cons first value items values related rest ih =>
    -- The item is the first one, or one of the others.
    rcases List.mem_cons.mp listed with rfl | later
    · exact ⟨value, List.mem_cons_self, related⟩
    · obtain ⟨other, found, same⟩ := ih later
      exact ⟨other, List.mem_cons_of_mem _ found, same⟩

/-- Each step succeeds with its own result. -/
theorem mapM_eq_some_iff {α β : Type} {step : α → Option β} {items : List α} {values : List β} :
    items.mapM step = some values ↔
      List.Forall₂ (fun item value => step item = some value) items values := by
  induction items generalizing values with
  | nil => cases values <;> simp
  | cons item items ih =>
    -- The first step gives the first value, and the others are made one by one.
    simp only [List.mapM_cons, Option.bind_eq_bind, Option.bind_eq_some_iff, Option.pure_def,
      Option.some.injEq, List.forall₂_cons_left_iff, ← ih]
    grind

/-- The registers of a tuple are read by the grammar. -/
theorem Param.element?_eq_some {text : List Char} {element : TupleElement} :
    element? text = some element ↔ TupleElement.Spells text element := by
  simp only [element?, Option.bind_eq_bind, Option.bind_eq_some_iff, Option.pure_def,
    Option.some.injEq, Prod.exists, marked?_eq_some, ScalarType.ofName?_eq_some]
  constructor
  · rintro ⟨name, access, ⟨read, -⟩, type, rfl, rfl⟩
    refine .intro type access ?_
    rw [ScalarType.text, ← read]
    exact padded_trimmed text
  · rintro ⟨type, access, padded⟩
    -- The text of a type has no white space of its own.
    have read := trimmed_of_padded padded
      (bare_of_isNameChar fun _ => ScalarType.isNameChar_of_mem_text)
    exact ⟨_, access, ⟨read, colon_not_mem type.isLower_of_mem_name⟩, type, rfl, rfl⟩

/-- A register of a tuple is spelled with letters, colons and white space. -/
theorem TupleElement.Spells.chars {text : List Char} {element : TupleElement}
    (spelled : Spells text element) : ∀ c ∈ text, isNameChar c = true ∨ isBlank c = true := by
  -- A name stands between white space, which has no other characters.
  obtain ⟨type, access, front, back, rfl, blankFront, blankBack⟩ := spelled
  intro c inside
  simp only [List.mem_append] at inside
  rcases inside with (before | named) | behind
  · exact .inr (blankFront c before)
  · exact .inl (ScalarType.isNameChar_of_mem_text named)
  · exact .inr (blankBack c behind)

/-- Registers of a tuple are spelled without commas. -/
theorem TupleElement.Spells.comma_not_mem {text : List Char} {element : TupleElement}
    (spelled : Spells text element) : ',' ∉ text := by
  intro inside
  -- A comma is neither in a name nor white space.
  have char := spelled.chars ',' inside
  revert char
  decide

namespace Param

variable {text : List Char} {param : Param}

/-- The letters of `reg`. -/
theorem isLower_of_mem_reg : ∀ c ∈ "reg".toList, c.isLower := by simp

/-- An item without brackets is made of letters and a colon. -/
theorem SpellsItem.chars (spelled : SpellsItem text param) :
    (∃ body, text = "reg(".toList ++ body ++ ")".toList) ∨ ∀ c ∈ text, isNameChar c = true := by
  -- Only a tuple has brackets around it.
  cases spelled with
  | scalar type access => exact .inr fun c => ScalarType.isNameChar_of_mem_text
  | register access => exact .inr fun c => isNameChar_of_mem_withMark isLower_of_mem_reg
  | tuple nonempty each => exact .inl ⟨_, rfl⟩

/-- The item of a text in brackets is the tuple of the registers between its commas. -/
theorem spellsItem_bracketed {body : List Char} :
    SpellsItem ("reg(".toList ++ body ++ ")".toList) param ↔
      ∃ elements, List.Forall₂ TupleElement.Spells (splitCommas body) elements ∧
        param = { item := .tuple elements } := by
  constructor
  · intro spelled
    generalize same : "reg(".toList ++ body ++ ")".toList = text at spelled
    -- Nothing but a tuple has a bracket in it.
    have bracket : '(' ∈ text := by simp [← same]
    cases spelled with
    | scalar type access =>
      exact absurd (ScalarType.isNameChar_of_mem_text bracket) (by decide)
    | register access =>
      exact absurd (isNameChar_of_mem_withMark isLower_of_mem_reg bracket) (by decide)
    | @tuple texts elements nonempty each =>
      -- What stands in the brackets is joined from texts without commas, so that it is cut into
      -- these.
      have inner : body = [','].intercalate texts :=
        List.append_cancel_left (List.append_cancel_right same)
      have free : ∀ piece ∈ texts, ',' ∉ piece := by
        intro piece listed
        obtain ⟨element, -, spelled⟩ := exists_of_mem_forall₂ each listed
        exact spelled.comma_not_mem
      rw [splitCommas_eq_iff.mpr ⟨nonempty, inner, free⟩]
      exact ⟨elements, each, rfl⟩
  · rintro ⟨elements, each, rfl⟩
    have whole := SpellsItem.tuple (splitCommas_ne_nil body) each
    rwa [intercalate_splitCommas] at whole

/-- The text of a scalar type or of a register is cut into its name and its mark. -/
theorem marked?_withMark {name : List Char} (letters : ∀ c ∈ name, c.isLower)
    (access : Option Access) : marked? (withMark name access) = some (name, access) :=
  marked?_eq_some.mpr ⟨rfl, colon_not_mem letters⟩

/-- Items are read by the grammar. -/
theorem item?_eq_some : item? text = some param ↔ SpellsItem text param := by
  unfold item?
  cases brackets : tupleBody? text with
  | some body =>
    -- What stands in brackets is a tuple or nothing.
    rw [tupleBody?_eq_some.mp brackets, spellsItem_bracketed]
    simp only [Option.map_eq_some_iff, mapM_eq_some_iff, element?_eq_some]
    simp only [eq_comm]
  | none =>
    constructor
    · intro read
      -- Without brackets, what comes before the mark is the register or the name of a type.
      obtain ⟨⟨name, access⟩, marked, made⟩ := Option.bind_eq_some_iff.mp read
      obtain ⟨rfl, -⟩ := marked?_eq_some.mp marked
      dsimp only at made
      split at made
      · rename_i reg
        cases made
        exact reg ▸ .register access
      · obtain ⟨type, named, built⟩ := Option.bind_eq_some_iff.mp made
        cases built
        cases ScalarType.ofName?_eq_some.mp named
        exact .scalar type access
    · intro spelled
      cases spelled with
      | scalar type access =>
        have other : type.name.toList ≠ "reg".toList := by
          intro reg
          have named := ScalarType.ofName?_eq_some.mpr reg.symm
          cases named
        have named : ScalarType.ofName? type.name.toList = some type :=
          ScalarType.ofName?_eq_some.mpr rfl
        simp only [ScalarType.text, marked?_withMark type.isLower_of_mem_name, Option.bind_eq_bind,
          Option.bind_some, if_neg other, named]
        rfl
      | register access =>
        simp only [marked?_withMark isLower_of_mem_reg, Option.bind_eq_bind, Option.bind_some,
          if_true]
        rfl
      | tuple nonempty each =>
        -- A text in brackets is never read as a name.
        rw [tupleBody?_eq_some.mpr rfl] at brackets
        cases brackets

/-- A text in brackets has no white space at its ends. -/
theorem bare_bracketed (body : List Char) : Bare ("reg(".toList ++ body ++ ")".toList) := by
  constructor
  · -- It starts with a letter and ends with a bracket.
    intro c first
    cases first
    rfl
  · intro c last
    simp only [List.getLast?_append] at last
    cases last
    rfl

/-- A text in brackets does not end with dots. -/
theorem bracketed_ne_dots (body front : List Char) :
    "reg(".toList ++ body ++ ")".toList ≠ front ++ "...".toList := by
  intro same
  -- The last character is a bracket, and not a dot.
  have last := congrArg List.getLast? same
  simp only [List.getLast?_append] at last
  cases last

/-- An item has no white space at its ends. -/
theorem SpellsItem.bare (spelled : SpellsItem text param) : Bare text := by
  -- It is in brackets, or made of letters and a colon.
  rcases spelled.chars with ⟨body, rfl⟩ | named
  · exact bare_bracketed body
  · exact bare_of_isNameChar named

/-- An item does not end with dots. -/
theorem SpellsItem.ne_dots (spelled : SpellsItem text param) (front : List Char) :
    text ≠ front ++ "...".toList := by
  rintro rfl
  -- It ends with a bracket, or has no dot in it.
  rcases spelled.chars with ⟨body, same⟩ | named
  · exact bracketed_ne_dots body front same.symm
  · exact absurd (named '.' (by simp)) (by decide)

/-- An item is not variadic. -/
theorem SpellsItem.single (spelled : SpellsItem text param) : param.variadic = false := by
  cases spelled <;> rfl

/-- An item is not spelled by nothing. -/
theorem SpellsItem.ne_nil (spelled : SpellsItem text param) : text ≠ [] := by
  -- The reader finds no item in an empty text.
  rintro rfl
  cases item?_eq_some.mpr spelled

/-- A spelled parameter has no white space at its ends. -/
theorem Spells.bare (spelled : Spells text param) : Bare text := by
  cases spelled with
  | single item => exact item.bare
  | @variadic text blanks param item blank =>
    constructor
    · -- The text starts with the item.
      obtain ⟨first, rest, rfl⟩ := List.exists_cons_of_ne_nil item.ne_nil
      exact item.bare.front
    · intro c last
      simp only [List.getLast?_append] at last
      cases last
      rfl

/-- Texts without white space at their ends are read by the grammar. -/
theorem spelled?_eq_some (bare : Bare text) : spelled? text = some param ↔ Spells text param := by
  unfold spelled?
  cases dots : dropTail? "...".toList text with
  | some body =>
    obtain rfl := dropTail?_eq_some.mp dots
    constructor
    · intro read
      obtain ⟨inner, item, rfl⟩ := Option.map_eq_some_iff.mp read
      obtain ⟨front, back, split, blankFront, blankBack⟩ := padded_trimmed body
      -- There is no white space in front of the dots and of all that stands before them.
      have start : front = [] := by
        cases front with
        | nil => rfl
        | cons c rest =>
          have blank := blankFront c List.mem_cons_self
          rw [bare.front c (by rw [split]; rfl)] at blank
          cases blank
      rw [start, List.nil_append] at split
      rw [split]
      exact .variadic (item?_eq_some.mp item) blankBack
    · intro spelled
      generalize same : body ++ "...".toList = text at spelled
      cases spelled with
      | single item => exact absurd same.symm (item.ne_dots body)
      | @variadic text blanks inner item blank =>
        obtain rfl := List.append_cancel_right same
        have core : trimmed (text ++ blanks) = text :=
          trimmed_of_padded ⟨[], blanks, rfl, blank_nil, blank⟩ item.bare
        simp only [core, item?_eq_some.mpr item, Option.map_some]
  | none =>
    rw [item?_eq_some]
    constructor
    · exact .single
    · intro spelled
      cases spelled with
      | single item => exact item
      | variadic item blank =>
        -- The dots would have been found.
        rw [dropTail?_eq_some.mpr rfl] at dots
        cases dots

/-- White space at the ends of a text does not matter. -/
theorem ofString_eq_ok_iff_spelled? {text : String} :
    ofString text = .ok param ↔ spelled? (trimmed text.toList) = some param := by
  cases found : spelled? (trimmed text.toList) <;> simp [ofString, found]

/-- The texts that are read are those of the grammar, with white space around them. -/
theorem ofString_eq_ok {text : String} :
    ofString text = .ok param ↔ ∃ core, Padded text.toList core ∧ Spells core param := by
  -- What is read is the text without white space around it, which is unique.
  rw [ofString_eq_ok_iff_spelled?, spelled?_eq_some (bare_trimmed _)]
  constructor
  · intro spelled
    exact ⟨_, padded_trimmed _, spelled⟩
  · rintro ⟨core, padded, spelled⟩
    rwa [trimmed_of_padded padded spelled.bare]

/-! ### Parameters made of others -/

/-- A parameter that can stand in a tuple, and the register that it is there. -/
structure Enters (param : Param) (element : TupleElement) : Prop where
  single : param.variadic = false
  scalar : param.item = .scalar element.type
  access : element.access = param.access.getD .read

/-- The text of a parameter is that of an item unless the parameter is variadic. -/
theorem Spells.item?_eq (spelled : Spells text param) :
    item? text = if param.variadic then none else some param := by
  cases spelled with
  | single item => simp [item?_eq_some.mpr item, item.single]
  | @variadic text blanks inner item blank =>
    -- An item does not end with dots.
    cases read : item? (text ++ blanks ++ "...".toList) with
    | none => rfl
    | some other => exact absurd rfl ((item?_eq_some.mp read).ne_dots (text ++ blanks))

/-- Dots behind the text of a parameter make it variadic, if it was not. -/
theorem ofString_dots {text : String} {inner param : Param} (read : ofString text = .ok inner) :
    ofString (text ++ "...") = .ok param ↔
      inner.variadic = false ∧ param = { inner with variadic := true } := by
  obtain ⟨core, ⟨front, back, split, blankFront, blankBack⟩, spelled⟩ := ofString_eq_ok.mp read
  have start : core ≠ [] := by
    cases spelled with
    | single item => exact item.ne_nil
    | variadic item blank => simp
  -- The dots keep the white space behind the text from being taken off at first.
  have outer : trimmed (text ++ "...").toList = core ++ back ++ "...".toList := by
    refine trimmed_of_padded ⟨front, [], by simp [split], blankFront, blank_nil⟩ ⟨?_, ?_⟩
    · obtain ⟨first, rest, rfl⟩ := List.exists_cons_of_ne_nil start
      exact spelled.bare.front
    · intro c last
      simp only [List.getLast?_append] at last
      cases last
      rfl
  have nested : trimmed (core ++ back) = core :=
    trimmed_of_padded ⟨[], back, rfl, blank_nil, blankBack⟩ spelled.bare
  rw [ofString_eq_ok_iff_spelled?, outer, spelled?, dropTail?_eq_some.mpr rfl]
  dsimp only
  rw [nested, spelled.item?_eq]
  cases variadic : inner.variadic with
  | true => simp
  | false =>
    simp only [Bool.false_eq_true, if_false, Option.map_some, Option.some.injEq, true_and]
    exact eq_comm

/-- A parameter can stand in a tuple if its text can. -/
theorem spells_element_iff {text : String} {inner : Param} {element : TupleElement}
    (read : ofString text = .ok inner) :
    TupleElement.Spells text.toList element ↔ inner.Enters element := by
  constructor
  · -- The text also spells a scalar by itself, and there is only one parameter for it.
    rintro ⟨type, access, padded⟩
    have also := ofString_eq_ok.mpr ⟨_, padded, .single (.scalar type access)⟩
    rw [read] at also
    cases also
    exact ⟨rfl, rfl, rfl⟩
  · rintro ⟨single, scalar, same⟩
    obtain ⟨core, padded, spelled⟩ := ofString_eq_ok.mp read
    obtain ⟨type, access⟩ := element
    -- Neither dots nor a register nor a tuple are spelled as a scalar.
    cases spelled with
    | variadic item blank => cases single
    | single item =>
      cases item with
      | scalar other mark =>
        cases scalar
        obtain rfl : access = mark.getD .read := same
        exact .intro type mark padded
      | register mark => cases scalar
      | tuple nonempty each => cases scalar

/-- Texts can stand in a tuple if the parameters that they spell can. -/
theorem forall₂_elements_iff {texts : List String} {inners : List Param}
    {elements : List TupleElement}
    (read : List.Forall₂ (fun text inner => ofString text = .ok inner) texts inners) :
    List.Forall₂ TupleElement.Spells (texts.map String.toList) elements ↔
      List.Forall₂ Enters inners elements := by
  induction read generalizing elements with
  | nil => simp
  | cons first rest ih =>
    cases elements with
    | nil => simp
    -- The first text is in place of the first register, and so on.
    | cons element elements => simp [spells_element_iff first, ih]

/-- A text with brackets around it is read as a tuple or not at all. -/
theorem ofString_bracketed {text : String} :
    ofString ("reg(" ++ text ++ ")") = .ok param ↔
      ∃ elements, List.Forall₂ TupleElement.Spells (splitCommas text.toList) elements ∧
        param = { item := .tuple elements } := by
  -- There is no white space around the brackets, so nothing is trimmed.
  have brackets : ("reg(" ++ text ++ ")").toList = "reg(".toList ++ text.toList ++ ")".toList := by
    simp only [String.toList_append]
  have bare := bare_bracketed text.toList
  rw [ofString_eq_ok_iff_spelled?, brackets,
    trimmed_of_padded (.refl _) bare,
    spelled?_eq_some bare, ← spellsItem_bracketed]
  constructor
  · intro spelled
    generalize same : "reg(".toList ++ text.toList ++ ")".toList = whole at spelled ⊢
    cases spelled with
    | single item => exact item
    -- A text that ends with a bracket does not end with dots.
    | @variadic front blanks inner item blank =>
      exact absurd same (bracketed_ne_dots text.toList (front ++ blanks))
  · exact .single

/-- A parameter whose text has neither brackets nor dots has no commas in it. -/
theorem comma_not_mem_of_plain {text : String} {inner : Param} (read : ofString text = .ok inner)
    (plain : ∀ c ∈ text.toList, c ≠ '(' ∧ c ≠ '.') : ',' ∉ text.toList := by
  obtain ⟨core, ⟨front, back, split, blankFront, blankBack⟩, spelled⟩ := ofString_eq_ok.mp read
  rw [split] at plain ⊢
  -- Dots and brackets are excluded, so the text is that of a name.
  have named : ∀ c ∈ core, isNameChar c = true := by
    cases spelled with
    | variadic item blank => exact absurd rfl (plain '.' (by simp)).2
    | single item =>
      rcases item.chars with ⟨body, rfl⟩ | named
      · exact absurd rfl (plain '(' (by simp)).1
      · exact named
  -- The comma would be in the name or in the white space around it.
  intro inside
  simp only [List.mem_append] at inside
  rcases inside with (before | within) | behind
  · exact absurd (blankFront ',' before) (by decide)
  · exact absurd (named ',' within) (by decide)
  · exact absurd (blankBack ',' behind) (by decide)

/-- Texts of parameters with brackets around them and commas between them spell a tuple exactly if
all of them can stand in one. -/
theorem ofString_tuple {texts : List String} {inners : List Param} (nonempty : texts ≠ [])
    (read : List.Forall₂ (fun text inner => ofString text = .ok inner) texts inners) :
    ofString ("reg(" ++ ",".intercalate texts ++ ")") = .ok param ↔
      ∃ elements, List.Forall₂ Enters inners elements ∧ param = { item := .tuple elements } := by
  rw [ofString_bracketed]
  -- Without commas in them, the texts are the pieces between the commas.
  have pieces (free : ∀ text ∈ texts, ',' ∉ text.toList) :
      splitCommas (",".intercalate texts).toList = texts.map String.toList := by
    refine splitCommas_eq_iff.mpr ⟨by simpa using nonempty, String.toList_intercalate, ?_⟩
    intro piece listed
    obtain ⟨text, inside, rfl⟩ := List.mem_map.mp listed
    exact free text inside
  constructor
  · rintro ⟨elements, each, rfl⟩
    have free : ∀ text ∈ texts, ',' ∉ text.toList := by
      intro text listed
      obtain ⟨inner, -, spelled⟩ := exists_of_mem_forall₂ read listed
      -- Whatever its own commas are, its pieces are among those of the whole, and plain.
      refine comma_not_mem_of_plain spelled fun c inside => ?_
      by_cases comma : c = ','
      · simp [comma]
      obtain ⟨piece, within, found⟩ := exists_mem_splitCommas inside comma
      have among : piece ∈ splitCommas (",".intercalate texts).toList := by
        rw [String.toList_intercalate]
        change piece ∈ splitCommas ([','].intercalate (texts.map String.toList))
        rw [splitCommas_intercalate (by simpa using nonempty), List.mem_flatMap]
        exact ⟨_, List.mem_map_of_mem listed, within⟩
      obtain ⟨element, -, spells⟩ := exists_of_mem_forall₂ each among
      have plain := spells.chars c found
      constructor <;> rintro rfl <;> exact absurd plain (by decide)
    rw [pieces free, forall₂_elements_iff read] at each
    exact ⟨elements, each, rfl⟩
  · rintro ⟨elements, each, rfl⟩
    have spelled := (forall₂_elements_iff read).mpr each
    have free : ∀ text ∈ texts, ',' ∉ text.toList := by
      intro text listed
      obtain ⟨element, -, spells⟩ := exists_of_mem_forall₂ spelled (List.mem_map_of_mem listed)
      exact spells.comma_not_mem
    exact ⟨elements, by rwa [pieces free], rfl⟩

/-- The reader takes exactly the texts of the grammar, with white space around them, for the
parameters that they spell. Of what it takes, dots make variadic all that is not variadic yet, and
brackets make a tuple of nothing but scalars. -/
theorem ofString_grammar :
    (∀ text param, ofString text = .ok param ↔
      ∃ core, Padded text.toList core ∧ Spells core param) ∧
    (∀ text inner param, ofString text = .ok inner →
      (ofString (text ++ "...") = .ok param ↔
        inner.variadic = false ∧ param = { inner with variadic := true })) ∧
    ∀ texts inners param, texts ≠ [] →
      List.Forall₂ (fun text inner => ofString text = .ok inner) texts inners →
      (ofString ("reg(" ++ ",".intercalate texts ++ ")") = .ok param ↔
        ∃ elements, List.Forall₂ Enters inners elements ∧ param = { item := .tuple elements }) :=
  -- Each part is a law of the reader by itself.
  ⟨fun _ _ => ofString_eq_ok, fun _ _ _ read => ofString_dots read,
    fun _ _ _ nonempty read => ofString_tuple nonempty read⟩

/-- Any number of pairs of registers can be spelled with white space around each part. There is no
variadic parameter of variadic ones, and no tuple with a tuple in it. -/
theorem ofString_grammar_pairs :
    ofString " reg( dword ,any:rw) ... " =
        .ok { item := .tuple [⟨.dword, .read⟩, ⟨.any, .readWrite⟩], variadic := true } ∧
      (∀ param, ofString ("ilabel..." ++ "...") ≠ .ok param) ∧
      ∀ param, ofString ("reg(" ++ ",".intercalate ["dword", "reg(byte,word)"] ++ ")") ≠
        .ok param := by
  obtain ⟨reads, dots, tuples⟩ := ofString_grammar
  refine ⟨(reads _ _).mpr ?_, fun param read => ?_, fun param read => ?_⟩
  · have pair := SpellsItem.tuple (List.cons_ne_nil " dword ".toList ["any:rw".toList])
      (.cons (.intro .dword none ⟨[' '], [' '], rfl, blank_space, blank_space⟩)
        (.cons (.intro .any (some .readWrite) (.refl _)) .nil))
    exact ⟨_, ⟨[' '], [' '], rfl, blank_space, blank_space⟩, .variadic pair blank_space⟩
  · have inner : ofString "ilabel..." =
        .ok { item := .scalar (.label .code), variadic := true } := by cbv
    cases ((dots _ _ _ inner).mp read).1
  · have inner : ofString "dword" = .ok { item := .scalar .dword } := by cbv
    have pair : ofString "reg(byte,word)" =
        .ok { item := .tuple [⟨.byte, .read⟩, ⟨.word, .read⟩] } := by cbv
    obtain ⟨elements, each, -⟩ :=
      (tuples _ _ _ (List.cons_ne_nil _ _) (.cons inner (.cons pair .nil))).mp read
    -- The second of the two is a tuple itself.
    obtain ⟨element, -, enters⟩ :=
      exists_of_mem_forall₂ each (List.mem_cons_of_mem _ List.mem_cons_self)
    cases enters.scalar

end Param

end QuestScript
