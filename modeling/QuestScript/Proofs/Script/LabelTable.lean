import QuestScript.Proofs.Label
import QuestScript.Script.Encode

/-! The label table of a script gives back the places that its labels had. -/

namespace QuestScript

/-- The count of table words is beyond every label, and no greater than that takes. -/
theorem foldl_max_le_iff {labels : List Label} {start bound : Nat} :
    labels.foldl (fun count label => max count (label + 1)) start ≤ bound ↔
      start ≤ bound ∧ ∀ label ∈ labels, label < bound := by
  -- A maximum is within a bound if all that it is taken of is.
  induction labels generalizing start with
  | nil => simp
  | cons label labels ih =>
    rw [List.foldl_cons, ih, List.forall_mem_cons, Nat.max_le, and_assoc]
    exact Iff.rfl

/-- The count of table words is one more than the greatest label, if there is one. -/
theorem foldl_max_eq (labels : List Label) :
    labels.foldl (fun count label => max count (label + 1)) 0 = labels.max?.elim 0 (· + 1) := by
  -- From a first label on, the count is always one more than the greatest label so far.
  have ahead : ∀ (rest : List Label) (greatest : Label),
      rest.foldl (fun count label => max count (label + 1)) (greatest + 1) =
        rest.foldl max greatest + 1 := by
    intro rest
    induction rest with
    | nil => simp
    | cons label rest ih =>
      intro greatest
      rw [List.foldl_cons, List.foldl_cons, ← ih, Nat.add_max_add_right]
  cases labels with
  | nil => rfl
  | cons label rest =>
    rw [List.foldl_cons, Nat.zero_max, ahead]
    rfl

/-- A label has the offset of the last set that carries it. -/
theorem placedAt_last {placed : List (LabelSet × Nat)} {label : Label} {index : Nat}
    {entry : LabelSet × Nat} (found : placed[index]? = some entry) (carried : label ∈ entry.1)
    (last : ∀ later other, index < later → placed[later]? = some other → label ∉ other.1) :
    placedAt placed label = .ofNat entry.2 := by
  obtain ⟨inside, here⟩ := List.getElem?_eq_some_iff.mp found
  -- Those behind it are passed over, since the search begins at the end.
  have passed : (placed.drop (index + 1)).reverse.find? (·.1.contains label) = none := by
    rw [List.find?_eq_none]
    intro other listed
    obtain ⟨place, there⟩ := List.mem_iff_getElem?.mp (List.mem_reverse.mp listed)
    rw [List.getElem?_drop] at there
    have free := last _ other (by omega) there
    simpa using free
  have split : placed = placed.take index ++ entry :: placed.drop (index + 1) := by
    rw [← here, ← List.drop_eq_getElem_cons inside, List.take_append_drop]
  have first : placed.reverse.find? (·.1.contains label) = some entry := by
    rw [split, List.reverse_append, List.reverse_cons, List.find?_append, List.find?_append, passed]
    simp [carried]
  rw [placedAt, first]

/-- A label that a set carries has the offset of that set if all of its sets are there. -/
theorem placedAt_of_mem {placed : List (LabelSet × Nat)} {label : Label} {offset : Nat}
    (carried : ∃ entry ∈ placed, label ∈ entry.1)
    (only : ∀ entry ∈ placed, label ∈ entry.1 → entry.2 = offset) :
    placedAt placed label = .ofNat offset := by
  unfold placedAt
  split
  -- The set that the search finds is one of the label's, and these are all at one offset.
  · rename_i entry found
    have listed := List.mem_reverse.mp (List.mem_of_find?_eq_some found)
    have named := List.find?_some found
    rw [only entry listed (List.contains_iff_mem.mp named)]
  · -- The search would have found the set that carries the label.
    rename_i none
    obtain ⟨entry, listed, named⟩ := carried
    have passed := List.find?_eq_none.mp none entry (List.mem_reverse.mpr listed)
    exact absurd (List.contains_iff_mem.mpr named) passed

/-- A label that no set carries has no place. -/
theorem placedAt_of_not_mem {placed : List (LabelSet × Nat)} {label : Label}
    (free : ∀ entry ∈ placed, label ∉ entry.1) : placedAt placed label = noOffset := by
  unfold placedAt
  split
  · rename_i entry found
    -- A set that is found carries the label.
    have listed := List.mem_reverse.mp (List.mem_of_find?_eq_some found)
    have named := List.find?_some found
    exact absurd (List.contains_iff_mem.mp named) (free entry listed)
  · rfl

/-- The words of a label table are those of its labels. -/
theorem getElem?_labelTable_of_lt {placed : List (LabelSet × Nat)} {label : Label}
    (inside : label < (labelTable placed).length) :
    (labelTable placed)[label]? = some (placedAt placed label) := by
  -- The table is made label by label, up to the greatest one.
  rw [labelTable, List.length_map, List.length_range] at inside
  rw [labelTable, List.getElem?_map, List.getElem?_range inside, Option.map_some]

/-- The table goes on beyond every label that is carried. -/
theorem lt_length_labelTable {placed : List (LabelSet × Nat)} {label : Label}
    {entry : LabelSet × Nat} (listed : entry ∈ placed) (carried : label ∈ entry.1) :
    label < (labelTable placed).length := by
  rw [labelTable, List.length_map, List.length_range]
  -- The table is as long as the greatest label needs it to be.
  refine (foldl_max_le_iff.mp (Nat.le_refl _)).2 label ?_
  exact List.mem_flatMap.mpr ⟨entry, listed, carried⟩

/-- A label that a set carries has the offset of that set in the label table, if all of its sets are
there. -/
theorem getElem?_labelTable {placed : List (LabelSet × Nat)} {label : Label} {offset : Nat}
    (carried : ∃ entry ∈ placed, label ∈ entry.1)
    (only : ∀ entry ∈ placed, label ∈ entry.1 → entry.2 = offset) :
    (labelTable placed)[label]? = some (.ofNat offset) := by
  obtain ⟨entry, listed, named⟩ := carried
  -- The label is in the table, and is where the last of its sets is placed.
  rw [getElem?_labelTable_of_lt (lt_length_labelTable listed named),
    placedAt_of_mem ⟨entry, listed, named⟩ only]

/-- Sets that carry every label where a table puts it give each label its word of the table. -/
theorem placedAt_eq_word {table : LabelTable} {placed : List (LabelSet × Nat)}
    (carried : ∀ label offset,
      (∃ entry ∈ placed, label ∈ entry.1 ∧ entry.2 = offset) ↔ table.offset? label = some offset)
    {label : Label} {word : UInt32} (found : table[label]? = some word) :
    placedAt placed label = word := by
  by_cases free : word = noOffset
  · -- A set that carried the label would give it an offset, and the word says it has none.
    rw [free]
    refine placedAt_of_not_mem fun entry listed named => ?_
    obtain ⟨other, again, registered, -⟩ :=
      LabelTable.offset?_eq_some.mp ((carried label entry.2).mp ⟨entry, listed, named, rfl⟩)
    rw [found, Option.some.injEq] at again
    exact registered (again ▸ free)
  · have given : table.offset? label = some word.toNat :=
      LabelTable.offset?_eq_some.mpr ⟨word, found, free, rfl⟩
    obtain ⟨entry, listed, named, -⟩ := (carried label word.toNat).mpr given
    rw [placedAt_of_mem ⟨entry, listed, named⟩, UInt32.ofNat_toNat]
    -- All sets that carry the label stand at its one offset.
    intro other otherListed otherNamed
    have placed := (carried label other.2).mp ⟨other, otherListed, otherNamed, rfl⟩
    exact Option.some.inj (placed.symm.trans given)

/-- Sets that carry every label where a table puts it give back the table, up to labels without a
place after all others. -/
theorem labelTable_eq {table : LabelTable} {placed : List (LabelSet × Nat)}
    (carried : ∀ label offset,
      (∃ entry ∈ placed, label ∈ entry.1 ∧ entry.2 = offset) ↔ table.offset? label = some offset) :
    ∃ count, table = labelTable placed ++ List.replicate count noOffset := by
  -- A label is in the new table exactly if there is a carried label that is not before it.
  obtain ⟨size, made⟩ : ∃ size : Nat,
      (placed.flatMap (·.1)).foldl (fun count label => max count (label + 1)) 0 = size := ⟨_, rfl⟩
  have bound : ∀ limit : Nat, size ≤ limit ↔ ∀ entry ∈ placed, ∀ label ∈ entry.1, label < limit := by
    intro limit
    rw [← made, foldl_max_le_iff]
    simp only [Nat.zero_le, true_and, List.mem_flatMap, forall_exists_index, and_imp]
    exact ⟨fun below entry listed label named => below label entry listed named,
      fun below label entry listed named => below entry listed label named⟩
  have fits : size ≤ table.length := by
    refine (bound table.length).mpr fun entry listed label named => ?_
    obtain ⟨word, found, -⟩ :=
      LabelTable.offset?_eq_some.mp ((carried label entry.2).mp ⟨entry, listed, named, rfl⟩)
    exact (List.getElem?_eq_some_iff.mp found).1
  have built : labelTable placed = (List.range size).map (placedAt placed) := by
    rw [← made]
    rfl
  refine ⟨table.length - size, List.ext_getElem? fun label => ?_⟩
  rw [built]
  by_cases inside : label < table.length
  · obtain ⟨word, found⟩ : ∃ word, table[label]? = some word :=
      ⟨_, List.getElem?_eq_getElem inside⟩
    -- The word is the one that the new table gives or would give.
    have same := placedAt_eq_word carried found
    rw [found]
    by_cases kept : label < size
    · rw [List.getElem?_append_left (by simpa using kept), List.getElem?_map,
        List.getElem?_range kept, Option.map_some, same]
    · rw [List.getElem?_append_right (by simpa using Nat.le_of_not_lt kept), List.length_map,
        List.length_range, List.getElem?_replicate, if_pos (by omega), ← same]
      -- A label beyond the new table is carried by no set.
      have free := (bound label).mp (Nat.le_of_not_lt kept)
      rw [placedAt_of_not_mem fun entry listed named =>
        Nat.lt_irrefl label (free entry listed label named)]
  · rw [List.getElem?_eq_none (by omega), List.getElem?_eq_none]
    simp only [List.length_append, List.length_map, List.length_range, List.length_replicate]
    omega

end QuestScript
