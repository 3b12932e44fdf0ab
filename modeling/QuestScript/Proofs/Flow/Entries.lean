import Mathlib
import QuestScript.Proofs.Flow.Blocks

/-! Where control enters the code of a label: at the first block of the last segment with code that
has the label. -/

namespace QuestScript

/-- The block that control enters the code of a label at. -/
def entryBlock? (segments : List CodeSegment) (label : Int32) : Option Nat :=
  blockFor? (entriesFrom 0 segments) label

/-- A segment has code, and a label that is the given one as a 32-bit word. -/
def Carries (segments : List CodeSegment) (index : Nat) (label : Int32) : Prop :=
  ∃ segment, segments[index]? = some segment ∧ segment.instructions ≠ [] ∧
    ∃ own ∈ segment.labels, Int32.ofNat own = label

/-- A segment is the last one with code that has a label. -/
def CarriesLast (segments : List CodeSegment) (index : Nat) (label : Int32) : Prop :=
  Carries segments index label ∧ ∀ later, index < later → ¬Carries segments later label

/-- A block is the one that a segment starts with. -/
def Opens (segments : List CodeSegment) (index number : Nat) : Prop :=
  ∃ block, (blocksOf 0 segments)[number]? = some block ∧ block.segment = index ∧ block.start = 0

/-- A block is the first one of the last segment with code that has a label. -/
def Enters (segments : List CodeSegment) (label : Int32) (number : Nat) : Prop :=
  ∃ index, CarriesLast segments index label ∧ Opens segments index number

section Entries

variable {segment : CodeSegment} {segments rest : List CodeSegment} {label : Int32}
  {first start index number base : Nat} {instructions : List Instruction} {block : Block}

/-- The first block of some instructions starts where they do, and the others start later. -/
theorem start_of_blocksFrom
    (found : (blocksFrom first start index instructions)[number]? = some block) :
    number = 0 ∧ block.start = start ∨ 0 < number ∧ index < block.start := by
  fun_induction blocksFrom first start index instructions generalizing number with
  | case1 => cases found
  | case2 start index instruction rest branch _ ih =>
    -- The block behind a branch starts there, and those after it later still.
    cases number with
    | zero =>
      cases found
      exact .inl ⟨rfl, rfl⟩
    | succ number =>
      have := ih found
      omega
  | case3 start index instruction rest _ _ =>
    -- The last instruction ends the only block.
    cases number with
    | zero =>
      cases found
      exact .inl ⟨rfl, rfl⟩
    | succ number => cases found
  | case4 start index instruction rest _ _ ih =>
    have := ih found
    omega

/-- There is a block if there are instructions. -/
theorem blocksFrom_ne_nil (filled : instructions ≠ []) :
    blocksFrom first start index instructions ≠ [] := by
  fun_induction blocksFrom first start index instructions with
  | case1 => exact absurd rfl filled
  | case2 => exact List.cons_ne_nil _ _
  | case3 => exact List.cons_ne_nil _ _
  -- An instruction that ends no block is not the last one, so there is a block behind it.
  | case4 start index instruction rest _ more ih =>
    exact ih fun none => more (List.isEmpty_iff.mpr none)

/-- How many blocks come before a segment. -/
def blocksBefore (segments : List CodeSegment) (index : Nat) : Nat :=
  ((segments.take index).map fun segment => (blocksFrom 0 0 0 segment.instructions).length).sum

@[simp]
theorem blocksBefore_zero : blocksBefore segments 0 = 0 := by
  simp [blocksBefore]

@[simp]
theorem blocksBefore_succ :
    blocksBefore (segment :: rest) (index + 1) =
      (blocksFrom 0 0 0 segment.instructions).length + blocksBefore rest index := by
  simp [blocksBefore]

/-- A block is the one that a segment starts with, if the segments are numbered from `first` on. -/
def OpensFrom (first : Nat) (segments : List CodeSegment) (index number : Nat) : Prop :=
  ∃ block, (blocksOf first segments)[number]? = some block ∧ block.segment = first + index ∧
    block.start = 0

/-- The first segment, if it has code, starts with the first block. -/
theorem opensFrom_zero (filled : segment.instructions ≠ []) :
    OpensFrom first (segment :: rest) 0 number ↔ number = 0 := by
  constructor
  · rintro ⟨block, inside, owned, opens⟩
    rw [blocksOf, List.getElem?_append] at inside
    split at inside
    · -- Only the first block of the segment starts at its first instruction.
      have := start_of_blocksFrom inside
      omega
    · have := le_segment_of_mem_blocksOf (List.mem_of_getElem? inside)
      omega
  · rintro rfl
    obtain ⟨block, others, blocks⟩ := List.exists_cons_of_ne_nil
      (blocksFrom_ne_nil filled : blocksFrom first 0 0 segment.instructions ≠ [])
    have inside : (blocksFrom first 0 0 segment.instructions)[0]? = some block := by
      rw [blocks]
      rfl
    refine ⟨block, ?_, segment_of_mem_blocksFrom (List.mem_of_getElem? inside), ?_⟩
    · rw [blocksOf, blocks]
      rfl
    · have := start_of_blocksFrom inside
      omega

/-- The other segments start with the same blocks without the first one, which come after those of
the first one. -/
theorem opensFrom_succ :
    OpensFrom first (segment :: rest) (index + 1) number ↔
      ∃ place, OpensFrom (first + 1) rest index place ∧
        number = (blocksFrom 0 0 0 segment.instructions).length + place := by
  have count : (blocksFrom first 0 0 segment.instructions).length =
      (blocksFrom 0 0 0 segment.instructions).length := length_blocksFrom 0
  constructor
  · rintro ⟨block, inside, owned, opens⟩
    rw [blocksOf, List.getElem?_append] at inside
    split at inside
    · -- The blocks of the first segment are of no other one.
      have := segment_of_mem_blocksFrom (List.mem_of_getElem? inside)
      omega
    · exact ⟨_, ⟨block, inside, by omega, opens⟩, by omega⟩
  · rintro ⟨place, ⟨block, inside, owned, opens⟩, rfl⟩
    refine ⟨block, ?_, by omega, opens⟩
    rw [blocksOf, ← count, List.getElem?_append_right (Nat.le_add_right _ _),
      Nat.add_sub_cancel_left]
    exact inside

/-- A segment with code starts with the block after all those of the segments before it. -/
theorem opensFrom_iff (found : segments[index]? = some segment)
    (filled : segment.instructions ≠ []) :
    OpensFrom first segments index number ↔ number = blocksBefore segments index := by
  induction segments generalizing first index number with
  | nil => cases found
  | cons head rest ih =>
    cases index with
    -- All blocks of earlier segments come first, so that one segment is taken off after another.
    | zero =>
      obtain rfl : head = segment := Option.some.inj found
      rw [opensFrom_zero filled, blocksBefore_zero]
    | succ index =>
      have behind : rest[index]? = some segment := found
      simp [opensFrom_succ, ih behind]

/-- Whether the first of some segments carries a label. -/
theorem carries_zero :
    Carries (segment :: rest) 0 label ↔
      segment.instructions ≠ [] ∧ ∃ own ∈ segment.labels, Int32.ofNat own = label := by
  simp [Carries]

/-- The other segments carry the same labels without the first one. -/
theorem carries_succ :
    Carries (segment :: rest) (index + 1) label ↔ Carries rest index label := by
  simp [Carries]

/-- The first segment is the last one that carries a label if no other one does. -/
theorem carriesLast_zero :
    CarriesLast (segment :: rest) 0 label ↔
      Carries (segment :: rest) 0 label ∧ ∀ index, ¬Carries rest index label := by
  -- The segments behind the first one have their number there plus one.
  refine and_congr_right fun _ => ⟨fun none index carries => ?_, fun none later behind => ?_⟩
  · exact none (index + 1) (Nat.succ_pos index) (carries_succ.mpr carries)
  · obtain ⟨index, rfl⟩ := Nat.exists_eq_add_of_lt behind
    rw [Nat.zero_add, carries_succ]
    exact none index

/-- Which of the other segments is the last one does not depend on the first one. -/
theorem carriesLast_succ :
    CarriesLast (segment :: rest) (index + 1) label ↔ CarriesLast rest index label := by
  -- Both segments move by one place.
  refine and_congr carries_succ ⟨fun none later behind carries => ?_, fun none later behind => ?_⟩
  · exact none (later + 1) (Nat.succ_lt_succ behind) (carries_succ.mpr carries)
  · obtain ⟨between, rfl⟩ := Nat.exists_eq_add_of_lt behind
    have shifted : index + 1 + between + 1 = index + between + 1 + 1 := by omega
    rw [shifted, carries_succ]
    exact none _ (by omega)

/-- The entries that come first take precedence. -/
theorem blockFor?_append {front back : List (Int32 × Nat)} :
    blockFor? (front ++ back) label = (blockFor? front label).or (blockFor? back label) := by
  rw [blockFor?, List.find?_append, Option.map_or]
  rfl

/-- The labels of a segment stand for the block that it starts with, if it has one. -/
theorem blockFor?_here (rest : List CodeSegment) :
    blockFor? (if segment.instructions.isEmpty then []
        else segment.labels.map fun label => (Int32.ofNat label, base)) label = some number ↔
      Carries (segment :: rest) 0 label ∧ number = base := by
  rw [carries_zero, ne_eq, ← List.isEmpty_iff]
  split
  · simp_all [blockFor?]
  · rename_i filled
    constructor
    · intro found
      obtain ⟨entry, first, rfl⟩ := Option.map_eq_some_iff.mp found
      obtain ⟨own, listed, rfl⟩ := List.mem_map.mp (List.mem_of_find?_eq_some first)
      exact ⟨⟨filled, own, listed, by simpa using List.find?_some first⟩, rfl⟩
    · rintro ⟨⟨-, own, listed, rfl⟩, rfl⟩
      -- Some entry is found, and all of them have the same block.
      have known : ((segment.labels.map fun label => (Int32.ofNat label, number)).find?
          (·.1 == Int32.ofNat own)).isSome :=
        List.find?_isSome.mpr ⟨_, List.mem_map_of_mem listed, beq_self_eq_true _⟩
      obtain ⟨entry, first⟩ := Option.isSome_iff_exists.mp known
      obtain ⟨other, -, rfl⟩ := List.mem_map.mp (List.mem_of_find?_eq_some first)
      exact Option.map_eq_some_iff.mpr ⟨_, first, rfl⟩

/-- No block is found for a label that no segment with code has. -/
theorem blockFor?_eq_none :
    blockFor? (entriesFrom base segments) label = none ↔
      ∀ index, ¬Carries segments index label := by
  induction segments generalizing base with
  | nil => simp [entriesFrom, blockFor?, Carries]
  | cons segment rest ih =>
    -- A label is looked for in the later segments first, and then in this one.
    rw [entriesFrom, blockFor?_append, Option.or_eq_none_iff, ih]
    constructor
    · rintro ⟨behind, here⟩ index carries
      cases index with
      | zero =>
        rw [(blockFor?_here rest).mpr ⟨carries, rfl⟩] at here
        cases here
      | succ index => exact behind index (carries_succ.mp carries)
    · intro none
      refine ⟨fun index carries => none (index + 1) (carries_succ.mpr carries), ?_⟩
      refine Option.eq_none_iff_forall_ne_some.mpr fun number found => ?_
      exact none 0 ((blockFor?_here rest).mp found).1

/-- The block that is found for a label comes after all blocks of the segments before the last one
that has the label. -/
theorem blockFor?_eq_some :
    blockFor? (entriesFrom base segments) label = some number ↔
      ∃ index, CarriesLast segments index label ∧ number = base + blocksBefore segments index := by
  induction segments generalizing base with
  | nil => simp [entriesFrom, blockFor?, CarriesLast, Carries]
  | cons segment rest ih =>
    -- The first segment counts if none of the others has the label.
    refine Iff.trans ?_ Nat.or_exists_add_one
    rw [entriesFrom, blockFor?_append, Option.or_eq_some_iff, ih, blockFor?_eq_none,
      blockFor?_here rest, carriesLast_zero]
    simp only [carriesLast_succ, blocksBefore_succ, blocksBefore_zero, add_assoc, add_zero]
    rw [or_comm, and_left_comm, and_assoc]

/-- The block that control enters the code of a label at is the first one of the last segment with
code that has the label. -/
theorem entryBlock?_eq_some :
    entryBlock? segments label = some number ↔ Enters segments label number := by
  -- The segment has code, so its first block comes right after those of the segments before it.
  rw [entryBlock?, blockFor?_eq_some]
  refine exists_congr fun index => and_congr_right fun ⟨⟨segment, found, filled, _⟩, _⟩ => ?_
  have opens : OpensFrom 0 segments index number ↔ _ := opensFrom_iff found filled
  rw [Nat.zero_add, ← opens, OpensFrom, Nat.zero_add, Opens]

/-- Control enters code at one of its blocks. -/
theorem entryBlock?_lt (enters : entryBlock? segments label = some number) :
    number < (blocksOf 0 segments).length := by
  -- It is the first block of a segment.
  obtain ⟨index, -, block, found, -⟩ := entryBlock?_eq_some.mp enters
  exact (List.getElem?_eq_some_iff.mp found).1

end Entries

end QuestScript
