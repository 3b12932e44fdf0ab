import QuestScript.Label

/-! The label index answers what the label table says. -/

namespace QuestScript

namespace LabelSet

/-- A label joins those of a set. -/
@[simp] theorem mem_insert {labels : LabelSet} {label other : Label} :
    other ∈ labels.insert label ↔ other = label ∨ other ∈ labels := by
  -- The label goes in front of the first greater one.
  induction labels with
  | nil => simp [LabelSet.insert]
  | cons first rest ih =>
    unfold LabelSet.insert
    split
    · simp
    · split
      · -- The label was in the set already.
        rename_i same
        simp [same]
      · simp only [List.mem_cons, ih]
        constructor
        · rintro (front | named | back)
          · exact .inr (.inl front)
          · exact .inl named
          · exact .inr (.inr back)
        · rintro (named | front | back)
          · exact .inr (.inl named)
          · exact .inl front
          · exact .inr (.inr back)

/-- Some labels join those of a set. -/
@[simp] theorem mem_union {labels : LabelSet} {more : List Label} {other : Label} :
    other ∈ labels.union more ↔ other ∈ labels ∨ other ∈ more := by
  -- The labels join one after the other.
  unfold LabelSet.union
  induction more generalizing labels with
  | nil => simp
  | cons label more ih =>
    rw [List.foldl_cons, ih, mem_insert, List.mem_cons]
    constructor
    · rintro ((named | inside) | more)
      · exact .inr (.inl named)
      · exact .inl inside
      · exact .inr (.inr more)
    · rintro (inside | named | more)
      · exact .inl (.inr inside)
      · exact .inl (.inl named)
      · exact .inr more

end LabelSet

section PartitionPoint

variable {α : Type} {passes : α → Bool} {items : List α}

/-- The item at which a search in halves ends fails the test, if the one behind its range does. -/
theorem fails_partitionFrom {steps low high : Nat} (ordered : low ≤ high)
    (enough : high - low ≤ steps)
    (behind : ∀ item, items[high]? = some item → passes item = false) :
    ∀ item, items[partitionFrom passes items steps low high]? = some item →
      passes item = false := by
  -- The range only ever ends before an item that fails, and is empty when the search ends.
  fun_induction partitionFrom passes items steps low high with
  | case1 high low =>
    have same : low = high := by omega
    rwa [same]
  | case2 steps low high further middle passed ih => exact ih (by omega) (by omega) behind
  | case3 steps low high further middle failed ih =>
    -- The item in the middle, if there is one, is behind what is left.
    refine ih (by omega) (by omega) fun item there => ?_
    simpa [there] using failed
  | case4 steps low high done =>
    have same : low = high := by omega
    rwa [same]

/-- Every item before the end of a search in halves passes the test, if no item that fails it is
followed by one that passes. -/
theorem passes_partitionFrom {steps low high : Nat}
    (sorted : items.Pairwise fun a b => passes b = true → passes a = true)
    (front : ∀ position item, position < low → items[position]? = some item → passes item = true) :
    ∀ position item, position < partitionFrom passes items steps low high →
      items[position]? = some item → passes item = true := by
  fun_induction partitionFrom passes items steps low high with
  | case1 low high => exact front
  | case2 steps low high further middle passed ih =>
    refine ih fun position item before there => ?_
    -- What comes before the item in the middle passes because that does.
    obtain ⟨found, middling, passed⟩ := (Option.any_eq_true _ _).mp passed
    obtain ⟨inside, rfl⟩ := List.getElem?_eq_some_iff.mp there
    obtain ⟨within, rfl⟩ := List.getElem?_eq_some_iff.mp middling
    rcases Nat.lt_or_eq_of_le (Nat.le_of_lt_succ before) with earlier | rfl
    · exact List.pairwise_iff_getElem.mp sorted _ _ inside within earlier passed
    · exact passed
  | case3 steps low high further middle failed ih => exact ih front
  | case4 steps low high done => exact front

/-- The item at a partition point fails the test. -/
theorem fails_partitionPoint {item : α} (there : items[partitionPoint passes items]? = some item) :
    passes item = false :=
  fails_partitionFrom (Nat.zero_le _) (Nat.sub_le _ _) (by simp) item there

/-- The search in halves finds the first item that fails a test, if no item that fails it is
followed by one that passes. -/
theorem getElem?_partitionPoint
    (sorted : items.Pairwise fun a b => passes b = true → passes a = true) :
    items[partitionPoint passes items]? = items.find? (!passes ·) := by
  have front : ∀ position item, position < partitionPoint passes items →
      items[position]? = some item → passes item = true :=
    passes_partitionFrom sorted fun _ _ before => absurd before (Nat.not_lt_zero _)
  cases there : items[partitionPoint passes items]? with
  | some item =>
    obtain ⟨inside, same⟩ := List.getElem?_eq_some_iff.mp there
    symm
    rw [List.find?_eq_some_iff_getElem, fails_partitionPoint there]
    refine ⟨rfl, _, inside, same, fun position before => ?_⟩
    simp [front position _ before (List.getElem?_eq_getElem (Nat.lt_trans before inside))]
  | none =>
    -- The search has reached the end of the list.
    symm
    rw [List.find?_eq_none]
    intro item listed
    obtain ⟨position, inside, rfl⟩ := List.getElem_of_mem listed
    have before := Nat.lt_of_lt_of_le inside (List.getElem?_eq_none_iff.mp there)
    simp [front position _ before (List.getElem?_eq_getElem inside)]

end PartitionPoint

/-- What is found for a key behind one more entry. -/
theorem lookup_cons_eq_ite {α β : Type} [BEq α] [LawfulBEq α] [DecidableEq α] {key other : α}
    {value : β} {rest : List (α × β)} :
    ((key, value) :: rest).lookup other =
      if other = key then some value else rest.lookup other := by
  by_cases same : other = key
  · simp [same]
  · rw [List.lookup_cons, beq_eq_false_iff_ne.mpr same, if_neg same]

/-- The offset that a table gives a label, unless the label has no place. -/
def LabelTable.offset? (table : LabelTable) (label : Label) : Option Nat :=
  table[label]?.bind fun word => if word = noOffset then none else some word.toNat

/-- A label has the offset that its word is the number of. -/
theorem LabelTable.offset?_eq_some {table : LabelTable} {label : Label} {offset : Nat} :
    table.offset? label = some offset ↔
      ∃ word, table[label]? = some word ∧ word ≠ noOffset ∧ word.toNat = offset := by
  simp only [offset?, Option.bind_eq_some_iff, Option.ite_none_left_eq_some, Option.some.injEq]

namespace LabelPlace

/-- A place comes before another: by offset, and by label at the same offset. -/
def Before (a b : LabelPlace) : Prop :=
  a.offset < b.offset ∨ a.offset = b.offset ∧ a.label < b.label

/-- Of two places only one comes before the other. -/
theorem Before.asymm {a b : LabelPlace} (first : a.Before b) : ¬b.Before a := by
  intro second
  -- Either the offsets differ, or they are the same and the labels differ.
  rcases first with front | ⟨same, front⟩
  · rcases second with back | ⟨again, -⟩
    · omega
    · omega
  · rcases second with back | ⟨-, back⟩
    · omega
    · exact Nat.lt_asymm front back

/-- Places are ordered by their offsets first. -/
theorem le_iff {a b : LabelPlace} :
    a.le b = true ↔ a.offset < b.offset ∨ a.offset = b.offset ∧ a.label ≤ b.label := by
  simp only [le, Bool.or_eq_true, Bool.and_eq_true, decide_eq_true_eq, beq_iff_eq]

/-- What comes after a later place comes later. -/
theorem le_trans (a b c : LabelPlace) (first : a.le b = true) (second : b.le c = true) :
    a.le c = true := by
  rw [le_iff] at *
  -- Offsets are compared first, and labels if they are the same.
  rcases first with before | ⟨same, label⟩
  · exact .inl (by omega)
  · rcases second with after | ⟨again, other⟩
    · exact .inl (by omega)
    · exact .inr ⟨by omega, Nat.le_trans label other⟩

/-- Of two places one comes first. -/
theorem le_total (a b : LabelPlace) : (a.le b || b.le a) = true := by
  -- Offsets decide; labels decide between places at one offset.
  rw [Bool.or_eq_true, le_iff, le_iff]
  rcases Nat.lt_trichotomy a.offset b.offset with before | same | after
  · exact .inl (.inl before)
  · rcases Nat.le_total a.label b.label with first | second
    · exact .inl (.inr ⟨same, first⟩)
    · exact .inr (.inr ⟨same.symm, second⟩)
  · exact .inr (.inl after)

end LabelPlace

/-- A table gives a place, it is beyond an offset, and it comes before all others that are. -/
structure LabelTable.FirstBeyond (table : LabelTable) (offset : Nat) (place : LabelPlace) :
    Prop where
  given : table.offset? place.label = some place.offset
  beyond : offset < place.offset
  least (other : LabelPlace) : table.offset? other.label = some other.offset →
    offset < other.offset → other = place ∨ place.Before other

/-- No two places come before all others. -/
theorem LabelTable.FirstBeyond.unique {table : LabelTable} {offset : Nat} {a b : LabelPlace}
    (first : table.FirstBeyond offset a) (second : table.FirstBeyond offset b) : a = b := by
  -- Each of the two comes before the other one, or they are the same.
  rcases first.least b second.given second.beyond with same | before
  · exact same.symm
  · rcases second.least a first.given first.beyond with same | after
    · exact same
    · exact absurd after before.asymm

namespace LabelIndex

/-- The labels of the places at an offset. -/
def labelsOf (places : List LabelPlace) (offset : Nat) : List Label :=
  (places.filter (·.offset == offset)).map (·.label)

/-- One label more is found at its offset, and the others where they were. -/
theorem lookup_pushAt {label : Label} {offset other : Nat} {groups : List (Nat × List Label)} :
    (pushAt offset label groups).lookup other =
      if other = offset then some ((groups.lookup offset).getD [] ++ [label])
      else groups.lookup other := by
  -- The label joins the first group of its offset, or is a group of its own behind all others.
  induction groups with
  | nil => simp [pushAt, lookup_cons_eq_ite]
  | cons group rest ih =>
    obtain ⟨place, labels⟩ := group
    unfold pushAt
    by_cases found : place = offset
    · subst found
      rw [if_pos rfl]
      by_cases same : other = place
      · simp [same]
      · simp [lookup_cons_eq_ite, same]
    · rw [if_neg found, lookup_cons_eq_ite, ih, lookup_cons_eq_ite, lookup_cons_eq_ite,
        if_neg (Ne.symm found)]
      by_cases front : other = place
      · simp [front, found]
      · simp only [if_neg front]

/-- The index finds the places that were entered, and no others. -/
structure Filed (index : LabelIndex) (entered : List LabelPlace) : Prop where
  /-- A label leads to a place of its own. -/
  position {label : Label} {position : Nat} : index.positions.lookup label = some position →
    ∃ place, entered[position]? = some place ∧ place.label = label
  /-- A label that leads nowhere has no place. -/
  absent {label : Label} : index.positions.lookup label = none →
    ∀ place ∈ entered, place.label ≠ label
  /-- An offset leads to all labels there. -/
  group (offset : Nat) : index.labelsAt offset = labelsOf entered offset
  /-- An offset without labels leads nowhere. -/
  occupied (offset : Nat) : index.labelsAt? offset ≠ some []

/-- A place that is entered behind the others is found with them. -/
theorem Filed.enter {index : LabelIndex} {entered : List LabelPlace} (filed : index.Filed entered)
    (place : LabelPlace) : (index.enter (place, entered.length)).Filed (entered ++ [place]) where
  position {label position} found := by
    -- The label is that of the new place, or was found before, where it still is.
    simp only [LabelIndex.enter, lookup_cons_eq_ite] at found
    split at found
    · rename_i named
      cases found
      exact ⟨place, List.getElem?_concat_length, named.symm⟩
    · obtain ⟨other, there, carries⟩ := filed.position found
      have inside := (List.getElem?_eq_some_iff.mp there).1
      exact ⟨other, (List.getElem?_append_left inside).trans there, carries⟩
  absent {label} missing := by
    -- A label that is still missing is neither that of an earlier place nor the new one.
    simp only [LabelIndex.enter, lookup_cons_eq_ite] at missing
    split at missing
    · cases missing
    · rename_i other
      intro earlier listed
      rcases List.mem_append.mp listed with before | last
      · exact filed.absent missing earlier before
      · rw [List.mem_singleton.mp last]
        exact Ne.symm other
  group offset := by
    -- The new label stands last in the group of its offset, and the other groups are as before.
    have before := filed.group offset
    simp only [labelsAt, labelsAt?, LabelIndex.enter, lookup_pushAt, labelsOf] at before ⊢
    rw [List.filter_append, List.map_append, ← before]
    by_cases there : offset = place.offset
    · simp [there]
    · simp [there, Ne.symm there]
  occupied offset := by
    -- There is a group now at the offset of the place, and the others are as before.
    have before := filed.occupied offset
    simp only [labelsAt?, LabelIndex.enter, lookup_pushAt] at before ⊢
    split
    · simp
    · exact before

/-- Places that are entered one after the other behind those before are found with them. -/
theorem Filed.foldl_enter {index : LabelIndex} {entered : List LabelPlace}
    (filed : index.Filed entered) (places : List LabelPlace) :
    ((places.zipIdx entered.length).foldl LabelIndex.enter index).Filed (entered ++ places) ∧
      ((places.zipIdx entered.length).foldl LabelIndex.enter index).places = index.places := by
  induction places generalizing index entered with
  | nil => simpa using filed
  | cons place places ih =>
    -- The place goes in at the number of those that were entered before it.
    obtain ⟨kept, same⟩ := ih (filed.enter place)
    rw [List.length_append, List.length_singleton] at kept same
    rw [List.append_assoc] at kept
    exact ⟨kept, same⟩

/-- An index of places finds them. -/
theorem filed_ofPlaces (places : List LabelPlace) :
    (ofPlaces places).Filed places ∧ (ofPlaces places).places = places := by
  -- An empty index has no places entered, and the places are entered one after another.
  have none : Filed ⟨places, [], []⟩ [] :=
    ⟨by simp, by simp, fun _ => rfl, fun _ => by simp [labelsAt?]⟩
  exact none.foldl_enter places

variable {table : LabelTable} {label : Label} {offset size : Nat}

/-- The places of an index are sorted. -/
theorem places_ofTable :
    (ofTable table).places = (table.zipIdx.filterMap place?).mergeSort LabelPlace.le :=
  (filed_ofPlaces _).2

/-- The index of a table finds its places. -/
theorem filed_ofTable : (ofTable table).Filed (ofTable table).places := by
  rw [places_ofTable]
  exact (filed_ofPlaces _).1

/-- The places of an index are those that the table gives. -/
theorem mem_places {place : LabelPlace} :
    place ∈ (ofTable table).places ↔ table.offset? place.label = some place.offset := by
  -- A place is made of each word that stands for a label, in its position.
  rw [LabelTable.offset?_eq_some, places_ofTable]
  simp only [List.mem_mergeSort, List.mem_filterMap, List.mem_zipIdx_iff_getElem?,
    Prod.exists, place?, Option.ite_none_left_eq_some, Option.some.injEq]
  constructor
  · rintro ⟨word, label, found, registered, rfl⟩
    exact ⟨word, found, registered, rfl⟩
  · rintro ⟨word, found, registered, same⟩
    exact ⟨word, place.label, found, registered, by rw [same]⟩

/-- The places of an index ascend. -/
theorem pairwise_places : (ofTable table).places.Pairwise fun a b => a.le b = true := by
  rw [places_ofTable]
  exact List.pairwise_mergeSort LabelPlace.le_trans LabelPlace.le_total _

/-- No label has two places. -/
theorem nodup_labels : ((ofTable table).places.map (·.label)).Nodup := by
  rw [places_ofTable]
  -- Sorting moves places without adding any.
  have sorted := List.mergeSort_perm (table.zipIdx.filterMap place?) LabelPlace.le
  refine (sorted.map (·.label)).nodup_iff.mpr ?_
  -- The words are numbered one after the other, and each has one place at most.
  have numbered : (table.zipIdx.map Prod.snd).Nodup := by
    rw [List.zipIdx_map_snd]
    exact List.nodup_range' 1
  rw [List.Nodup, List.pairwise_map, List.pairwise_filterMap]
  rw [List.Nodup, List.pairwise_map] at numbered
  refine numbered.imp fun differ first madeFirst second madeSecond => ?_
  simp only [place?, Option.ite_none_left_eq_some, Option.some.injEq] at madeFirst madeSecond
  rw [← madeFirst.2, ← madeSecond.2]
  exact differ

/-- The places of an index ascend, and no two are the same. -/
theorem pairwise_before : (ofTable table).places.Pairwise LabelPlace.Before := by
  have apart := List.pairwise_map.mp (@nodup_labels table)
  refine (pairwise_places.and apart).imp fun ⟨ordered, differ⟩ => ?_
  -- Places at one offset differ in their labels.
  rcases LabelPlace.le_iff.mp ordered with before | ⟨same, label⟩
  · exact .inl before
  · exact .inr ⟨same, Nat.lt_of_le_of_ne label differ⟩

/-- A label has no position in the index if the table gives it no offset. -/
theorem lookup_positions_eq_none :
    (ofTable table).positions.lookup label = none ↔ table.offset? label = none := by
  constructor
  · intro missing
    -- A label with an offset has a place that would have been entered.
    refine Option.eq_none_iff_forall_ne_some.mpr fun offset given => ?_
    exact filed_ofTable.absent missing ⟨offset, label⟩ (mem_places.mpr given) rfl
  · intro unplaced
    refine Option.eq_none_iff_forall_ne_some.mpr fun position found => ?_
    obtain ⟨place, there, rfl⟩ := filed_ofTable.position found
    have given := mem_places.mp (List.mem_of_getElem? there)
    rw [unplaced] at given
    cases given

/-- The index gives a label the offset that the table gives it. -/
@[simp] theorem offset?_ofTable : (ofTable table).offset? label = table.offset? label := by
  unfold offset?
  cases found : (ofTable table).positions.lookup label with
  | some position =>
    -- A position that is found is that of a place with this label.
    obtain ⟨place, there, rfl⟩ := filed_ofTable.position found
    rw [mem_places.mp (List.mem_of_getElem? there)]
    simp [there]
  | none => exact (lookup_positions_eq_none.mp found).symm

/-- The offset of a label is that of one of the places. -/
theorem exists_mem_of_offset? {index : LabelIndex} (given : index.offset? label = some offset) :
    ∃ place ∈ index.places, place.offset = offset := by
  simp only [offset?, bind, pure, Option.bind_eq_some_iff, Option.some.injEq] at given
  -- The offset is read from the place in the position that is found.
  obtain ⟨position, -, place, there, same⟩ := given
  exact ⟨place, List.mem_of_getElem? there, same⟩

/-- The labels at an offset are those that the table puts there. -/
@[simp] theorem mem_labelsAt :
    label ∈ (ofTable table).labelsAt offset ↔ table.offset? label = some offset := by
  -- The group of an offset has the labels of the places there.
  rw [filed_ofTable.group]
  simp only [labelsOf, List.mem_map, List.mem_filter, mem_places, beq_iff_eq]
  constructor
  · rintro ⟨place, ⟨given, rfl⟩, rfl⟩
    exact given
  · intro given
    exact ⟨⟨offset, label⟩, ⟨given, rfl⟩, rfl⟩

/-- The first place beyond an offset is one of the places, and beyond the offset. -/
theorem mem_of_firstAfter? {index : LabelIndex} {place : LabelPlace}
    (found : index.firstAfter? offset = some place) :
    place ∈ index.places ∧ offset < place.offset := by
  -- The search ends at the first place that is not up to the offset.
  have failed := fails_partitionPoint found
  exact ⟨List.mem_of_getElem? found, by simpa using failed⟩

/-- The search in halves finds what a search from the front would. -/
theorem firstAfter?_eq_find? : (ofTable table).firstAfter? offset =
    (ofTable table).places.find? fun place => offset < place.offset := by
  -- The places up to the offset stand in front.
  have front : (ofTable table).places.Pairwise fun a b =>
      decide (b.offset ≤ offset) = true → decide (a.offset ≤ offset) = true := by
    refine pairwise_places.imp fun ordered short => ?_
    simp only [LabelPlace.le_iff, decide_eq_true_eq] at ordered short ⊢
    omega
  rw [firstAfter?, getElem?_partitionPoint front]
  congr 1
  funext place
  rw [← decide_not, decide_eq_decide]
  exact Nat.not_le

/-- The index finds no place beyond an offset if there is none. -/
theorem firstAfter?_eq_none : (ofTable table).firstAfter? offset = none ↔
    ∀ label other, table.offset? label = some other → other ≤ offset := by
  rw [firstAfter?_eq_find?, List.find?_eq_none]
  -- No place is found if none of them is beyond the offset.
  simp only [mem_places, decide_eq_true_eq, Nat.not_lt]
  exact ⟨fun short label other => short ⟨other, label⟩, fun short place => short _ _⟩

/-- Of the places beyond an offset the index finds the smallest. -/
theorem firstAfter?_eq_some_iff {place : LabelPlace} :
    (ofTable table).firstAfter? offset = some place ↔ table.FirstBeyond offset place := by
  have smallest : ∀ found, (ofTable table).firstAfter? offset = some found →
      table.FirstBeyond offset found := by
    intro found search
    obtain ⟨listed, beyond⟩ := mem_of_firstAfter? search
    refine ⟨mem_places.mp listed, beyond, fun other given after => ?_⟩
    -- The place found splits the ascending list at the offset.
    rw [firstAfter?_eq_find?] at search
    obtain ⟨-, before, behind, split, passed⟩ := List.find?_eq_some_iff_append.mp search
    have there : other ∈ (ofTable table).places := mem_places.mpr given
    rw [split, List.mem_append, List.mem_cons] at there
    rcases there with early | same | late
    · -- What the search has passed is not beyond the offset.
      have short := passed _ early
      simp only [Bool.not_eq_true', decide_eq_false_iff_not] at short
      omega
    · exact .inl same
    -- What the search has not reached comes after the place that it found.
    · have ascending := @pairwise_before table
      rw [split, List.pairwise_append, List.pairwise_cons] at ascending
      exact .inr (ascending.2.1.1 _ late)
  constructor
  · exact smallest place
  · intro first
    cases search : (ofTable table).firstAfter? offset with
    | none =>
      have short := firstAfter?_eq_none.mp search _ _ first.given
      have beyond := first.beyond
      omega
    | some found => rw [first.unique (smallest found search)]

/-- The first place beyond an offset is beyond it, and no label comes before. -/
theorem firstAfter?_eq_some {place : LabelPlace}
    (found : (ofTable table).firstAfter? offset = some place) :
    offset < place.offset ∧ table.offset? place.label = some place.offset ∧
      ∀ label beyond, table.offset? label = some beyond → offset < beyond →
        place.offset ≤ beyond := by
  -- The place that is found comes before all others beyond the offset, so none of these is nearer.
  obtain ⟨given, beyond, least⟩ := firstAfter?_eq_some_iff.mp found
  refine ⟨beyond, given, fun label further registered after => ?_⟩
  rcases least ⟨further, label⟩ registered after with same | before
  · exact Nat.le_of_eq (congrArg LabelPlace.offset same).symm
  · rcases before with earlier | ⟨same, -⟩
    · exact Nat.le_of_lt earlier
    · exact Nat.le_of_eq same

/-- A range does not go beyond the script. -/
theorem rangeEnd_le {index : LabelIndex} : index.rangeEnd size offset ≤ size := by
  -- A range ends with the script, or before it.
  unfold rangeEnd
  split
  · exact Nat.min_le_right _ _
  · exact Nat.le_refl _

/-- A range that starts inside the script is not empty. -/
theorem lt_rangeEnd {index : LabelIndex} (inside : offset < size) :
    offset < index.rangeEnd size offset := by
  unfold rangeEnd
  split
  -- The place that ends the range is the first one beyond its start.
  · rename_i place found
    have after := (mem_of_firstAfter? found).2
    omega
  · exact inside

/-- No label points into a range. -/
theorem rangeEnd_le_of_lt {beyond : Nat} (given : table.offset? label = some beyond)
    (after : offset < beyond) : (ofTable table).rangeEnd size offset ≤ beyond := by
  unfold rangeEnd
  split
  · rename_i place found
    have first := (firstAfter?_eq_some found).2.2 label beyond given after
    omega
  · -- The search for a place beyond the offset would have found this one.
    rename_i none
    have short := firstAfter?_eq_none.mp none label beyond given
    omega

/-- A range that ends before the script does ends at a label. -/
theorem exists_offset_rangeEnd (short : (ofTable table).rangeEnd size offset < size) :
    ∃ label, table.offset? label = some ((ofTable table).rangeEnd size offset) := by
  unfold rangeEnd at short ⊢
  split at short
  · rename_i place found
    -- The range is cut at a place before the end of the script.
    rw [Nat.min_eq_left (by omega)]
    exact ⟨place.label, (firstAfter?_eq_some found).2.1⟩
  · omega

/-- Labels without a place after the others change nothing. -/
theorem ofTable_append_noOffset (table : LabelTable) (count : Nat) :
    ofTable (table ++ List.replicate count noOffset) = ofTable table := by
  -- A word that says there is no place makes no entry.
  have none : ∀ start, ((List.replicate count noOffset).zipIdx start).filterMap place? = [] := by
    intro start
    refine List.filterMap_eq_nil_iff.mpr fun entry inside => ?_
    have word : entry.1 = noOffset := by
      have listed := List.mem_map_of_mem (f := Prod.fst) inside
      rw [List.zipIdx_map_fst] at listed
      exact List.eq_of_mem_replicate listed
    rw [place?, if_pos word]
  rw [ofTable, List.zipIdx_append, List.filterMap_append, none, List.append_nil]
  rfl

end LabelIndex

end QuestScript
