import QuestScript.Flow.Graph

/-! Blocks divide the code: every instruction is in exactly one of them, and only the last one of a
block can be a branch.

The table that gives each instruction its block is made from where the blocks end. It agrees with
what the blocks say about themselves. -/

namespace QuestScript

namespace Block

/-- Blocks of a segment that follow each other from one place to another, none of them empty. -/
inductive Tiles (segment : Nat) : Nat → Nat → List Block → Prop where
  | nil (place : Nat) : Tiles segment place place []
  | cons {block : Block} {start stop : Nat} {rest : List Block} (own : block.segment = segment)
    (starts : block.start = start) (nonempty : block.start < block.stop)
    (others : Tiles segment block.stop stop rest) : Tiles segment start stop (block :: rest)

/-- A block of some code ends with the first branch in it, or else with the code. -/
structure Cuts (code : List Instruction) (block : Block) : Prop where
  /-- The last instruction says how control leaves the block. -/
  last : ∃ instruction, code[block.stop - 1]? = some instruction ∧
    block.branch = instruction.branch?.getD ⟨.fallthrough, []⟩ ∧
    (instruction.branch? = none → block.stop = code.length)
  /-- No instruction before it is a branch. -/
  inner : ∀ place instruction, block.start ≤ place → place + 1 < block.stop →
    code[place]? = some instruction → instruction.branch? = none

variable {segment start stop place : Nat} {block : Block} {blocks : List Block}
  {ref : InstructionRef}

/-- An instruction is in a block if it is in its segment and between its ends. -/
theorem contains_iff :
    block.contains ref = true ↔
      ref.segment = block.segment ∧ block.start ≤ ref.index ∧ ref.index < block.stop := by
  simp [contains, and_assoc]

namespace Tiles

/-- Blocks end no earlier than they start. -/
theorem le (tiled : Tiles segment start stop blocks) : start ≤ stop := by
  induction tiled with
  | nil place => exact Nat.le_refl place
  -- A block has at least one instruction.
  | cons own starts nonempty others ih => omega

/-- Every one of the blocks is of the segment, and between their ends. -/
theorem of_mem (tiled : Tiles segment start stop blocks) (listed : block ∈ blocks) :
    block.segment = segment ∧ start ≤ block.start ∧ block.stop ≤ stop := by
  induction tiled with
  | nil place => cases listed
  | cons own starts nonempty others ih =>
    have reaches := others.le
    rcases List.mem_cons.mp listed with rfl | behind
    · exact ⟨own, by omega, reaches⟩
    · -- The others start where the first one ends.
      obtain ⟨same, after, within⟩ := ih behind
      exact ⟨same, by omega, within⟩

/-- A block that ends where all of them do is the last one. -/
theorem getLast?_eq_some (tiled : Tiles segment start stop blocks) (listed : block ∈ blocks)
    (ends : block.stop = stop) : blocks.getLast? = some block := by
  induction tiled with
  | nil place => cases listed
  | cons own starts nonempty others ih =>
    cases others with
    | nil place => simp_all
    | cons ownToo startsThere more behind =>
      rcases List.mem_cons.mp listed with rfl | after
      · -- Another block that is not empty comes after the first one.
        have reaches := behind.le
        omega
      · rw [List.getLast?_cons_cons]
        exact ih after ends

end Tiles

end Block

section Segment

variable {segment start index number filled : Nat} {instructions : List Instruction} {block : Block}

/-- The blocks of a segment are of this segment. -/
theorem segment_of_mem_blocksFrom (listed : block ∈ blocksFrom segment start index instructions) :
    block.segment = segment := by
  fun_induction blocksFrom segment start index instructions with
  | case1 => cases listed
  | case2 start index instruction rest branch _ ih =>
    -- A branch ends a block here, and others may follow.
    rcases List.mem_cons.mp listed with rfl | behind
    · rfl
    · exact ih behind
  | case3 start index instruction rest _ _ => rw [List.mem_singleton.mp listed]
  | case4 start index instruction rest _ _ ih => exact ih listed

/-- The blocks of some instructions reach from where the first one began to the last instruction. -/
theorem tiles_blocksFrom (begun : start ≤ index) (pending : instructions = [] → start = index) :
    Block.Tiles segment start (index + instructions.length)
      (blocksFrom segment start index instructions) := by
  fun_induction blocksFrom segment start index instructions with
  | case1 start index =>
    obtain rfl := pending rfl
    exact .nil _
  | case2 start index instruction rest branch _ ih =>
    -- The block that has begun ends here, and the next one begins behind it.
    have others := ih (Nat.le_refl _) fun _ => rfl
    rw [List.length_cons, Nat.add_comm rest.length, ← Nat.add_assoc]
    exact .cons rfl rfl (Nat.lt_succ_of_le begun) others
  | case3 start index instruction rest _ last =>
    -- There is nothing behind the last instruction.
    obtain rfl := List.isEmpty_iff.mp last
    exact .cons rfl rfl (Nat.lt_succ_of_le begun) (.nil _)
  | case4 start index instruction rest _ more ih =>
    rw [List.length_cons, Nat.add_comm rest.length, ← Nat.add_assoc]
    exact ih (Nat.le_succ_of_le begun) fun none => absurd (List.isEmpty_iff.mpr none) more

/-- How many blocks some instructions have does not depend on where they are. -/
theorem length_blocksFrom (other : Nat) :
    (blocksFrom segment start index instructions).length =
      (blocksFrom other start index instructions).length := by
  fun_induction blocksFrom segment start index instructions with
  | case1 => rfl
  -- The number of the segment is only copied into each block.
  | case2 start index instruction rest branch isBranch ih => simp [blocksFrom, isBranch, ih]
  | case3 start index instruction rest plain last => simp [blocksFrom, plain, last]
  | case4 start index instruction rest plain more ih => simp [blocksFrom, plain, more, ih]

/-- A branch does not go on with the next block by itself. -/
theorem kind_of_branch? {instruction : Instruction} {branch : Branch}
    (found : instruction.branch? = some branch) : branch.kind ≠ .fallthrough := by
  -- There is a case for each kind of branch, and none of them falls through.
  simp only [Instruction.branch?] at found
  repeat' split at found
  all_goals cases found
  all_goals simp

/-- Every block ends with the first branch after its start, or else with the last instruction.

The instructions in front are those before `index`, none of which is a branch from `start` on. -/
theorem cuts_of_mem_blocksFrom {code front : List Instruction}
    (whole : code = front ++ instructions) (count : front.length = index)
    (plain : ∀ place instruction, start ≤ place → front[place]? = some instruction →
      instruction.branch? = none)
    (listed : block ∈ blocksFrom segment start index instructions) : block.Cuts code := by
  fun_induction blocksFrom segment start index instructions generalizing front with
  | case1 => cases listed
  | case2 start index instruction rest branch isBranch ih =>
    rcases List.mem_cons.mp listed with rfl | behind
    · refine ⟨⟨instruction, ?_, ?_, ?_⟩, fun place other after before found => ?_⟩
      · simp [whole, ← count]
      · simp [isBranch]
      · simp [isBranch]
      · -- What comes before the branch stands in front.
        refine plain place other after ?_
        rwa [whole, List.getElem?_append_left (by dsimp only at before; omega)] at found
    · -- The next block has nothing in front of the branch.
      refine @ih (front ++ [instruction]) (by simp [whole]) (by simp [count])
        (fun place other after found => ?_) behind
      rw [List.getElem?_eq_none (by simp [count, after])] at found
      cases found
  | case3 start index instruction rest isPlain last =>
    obtain rfl := List.isEmpty_iff.mp last
    rw [List.mem_singleton.mp listed]
    refine ⟨⟨instruction, ?_, ?_, ?_⟩, fun place other after before found => ?_⟩
    · simp [whole, ← count]
    · simp [isPlain]
    · simp [whole, count]
    · refine plain place other after ?_
      rwa [whole, List.getElem?_append_left (by dsimp only at before; omega)] at found
  | case4 start index instruction rest isPlain more ih =>
    -- One more instruction that is no branch comes to those in front.
    refine @ih (front ++ [instruction]) (by simp [whole]) (by simp [count])
      (fun place other after found => ?_) listed
    rw [List.getElem?_append] at found
    split at found
    · exact plain place other after found
    · obtain rfl := List.mem_singleton.mp (List.mem_of_getElem? found)
      exact isPlain

/-- Which block an instruction is in does not depend on where its segment is. -/
theorem ownersFrom_blocksFrom (other : Nat) :
    ownersFrom number filled (blocksFrom segment start index instructions) =
      ownersFrom number filled (blocksFrom other start index instructions) := by
  fun_induction blocksFrom segment start index instructions generalizing number filled with
  | case1 => rfl
  | case2 start index instruction rest branch isBranch ih =>
    -- Only the ends of the blocks are looked at, which are the same.
    simp [blocksFrom, ownersFrom, isBranch, ih]
  | case3 start index instruction rest plain last => simp [blocksFrom, ownersFrom, plain, last]
  | case4 start index instruction rest plain more ih => simp [blocksFrom, plain, more, ih]

end Segment

section Owners

variable {segment start stop index place number owner first : Nat} {blocks : List Block}
  {segments : List CodeSegment} {block : Block}

/-- Every instruction between the ends of some blocks is given a block. -/
theorem length_ownersFrom (tiled : Block.Tiles segment start stop blocks) :
    (ownersFrom number start blocks).length = stop - start := by
  induction tiled generalizing number with
  | nil place => simp [ownersFrom]
  | cons own starts nonempty others ih =>
    have reaches := others.le
    -- Each block gives as many as it has instructions, and the next one starts where it ends.
    simp only [ownersFrom, List.length_append, List.length_replicate, ih]
    omega

/-- The block that an instruction is given is the one that it is in. -/
theorem getElem?_ownersFrom (tiled : Block.Tiles segment start stop blocks) :
    (ownersFrom number start blocks)[index]? = some owner ↔
      ∃ position block, blocks[position]? = some block ∧
        block.contains ⟨segment, start + index⟩ = true ∧ owner = number + position := by
  induction tiled generalizing number index with
  | nil place => simp [ownersFrom]
  | @cons head start stop rest own starts nonempty others ih =>
    subst starts
    rw [ownersFrom, List.getElem?_append]
    simp only [List.length_replicate, List.getElem?_replicate]
    by_cases here : index < head.stop - head.start
    · -- An instruction of the first block is in none of the others, which start later.
      simp only [here, if_true, Option.some.injEq]
      constructor
      · rintro rfl
        exact ⟨0, head, rfl, Block.contains_iff.mpr ⟨own.symm, by simp, by simp; omega⟩, rfl⟩
      · rintro ⟨position, block, found, contained, rfl⟩
        cases position with
        | zero => rfl
        | succ position =>
          have after := (others.of_mem (List.mem_of_getElem? found)).2.1
          have inside := Block.contains_iff.mp contained
          simp only at inside
          omega
    · -- Behind the first block the places count from its end.
      have moved : head.stop + (index - (head.stop - head.start)) = head.start + index := by omega
      simp only [here, if_false]
      rw [ih, moved]
      constructor
      · rintro ⟨position, block, found, contained, rfl⟩
        exact ⟨position + 1, block, found, contained, by omega⟩
      · rintro ⟨position, block, found, contained, rfl⟩
        cases position with
        | zero =>
          cases found
          have inside := Block.contains_iff.mp contained
          simp only at inside
          omega
        | succ position => exact ⟨position, block, found, contained, by omega⟩

/-- The blocks of a whole segment reach from its first instruction to its last one. -/
theorem tiles_segment (segment : Nat) (instructions : List Instruction) :
    Block.Tiles segment 0 instructions.length (blocksFrom segment 0 0 instructions) := by
  -- Cutting starts with the first instruction, with no block left open.
  have tiled := @tiles_blocksFrom segment 0 0 instructions (Nat.le_refl 0) fun _ => rfl
  rwa [Nat.zero_add] at tiled

/-- The blocks of some segments are of these segments. -/
theorem le_segment_of_mem_blocksOf (listed : block ∈ blocksOf first segments) :
    first ≤ block.segment := by
  induction segments generalizing first with
  | nil => cases listed
  | cons segment rest ih =>
    rcases List.mem_append.mp listed with here | behind
    · -- The first segment has the number itself, and the others have greater ones.
      exact Nat.le_of_eq (segment_of_mem_blocksFrom here).symm
    · exact Nat.le_of_succ_le (ih behind)

/-- As many instructions of each segment are given a block as there are. -/
theorem map_length_ownersOf :
    (ownersOf number segments).map List.length = segments.map (·.instructions.length) := by
  induction segments generalizing number with
  | nil => rfl
  | cons segment rest ih =>
    -- The blocks of a segment go from its first instruction to its last one.
    simp only [ownersOf, List.map_cons, ih, length_ownersFrom (tiles_segment 0 _), Nat.sub_zero]

/-- The block that an instruction of any segment is given is the one that it is in. -/
theorem owner_iff (first : Nat) :
    ((ownersOf number segments)[index]?.bind fun numbers => numbers[place]?) = some owner ↔
      ∃ position block, (blocksOf first segments)[position]? = some block ∧
        block.contains ⟨first + index, place⟩ = true ∧ owner = number + position := by
  induction segments generalizing first number index with
  | nil => simp [ownersOf, blocksOf]
  | cons segment rest ih =>
    have count : (blocksFrom 0 0 0 segment.instructions).length =
      (blocksFrom first 0 0 segment.instructions).length := length_blocksFrom first
    simp only [blocksOf]
    cases index with
    | zero =>
      rw [ownersOf, List.getElem?_cons_zero, Option.bind_some, ownersFrom_blocksFrom first,
        getElem?_ownersFrom (tiles_segment first _), Nat.zero_add, Nat.add_zero]
      constructor
      · rintro ⟨position, block, found, contained, rfl⟩
        have inside := (List.getElem?_eq_some_iff.mp found).1
        exact ⟨position, block, by rw [List.getElem?_append_left inside, found], contained, rfl⟩
      · rintro ⟨position, block, found, contained, rfl⟩
        rw [List.getElem?_append] at found
        split at found
        · exact ⟨position, block, found, contained, rfl⟩
        · -- The blocks of other segments do not have it.
          have beyond := le_segment_of_mem_blocksOf (List.mem_of_getElem? found)
          have inside := Block.contains_iff.mp contained
          simp only at inside
          omega
    | succ index =>
      rw [ownersOf, List.getElem?_cons_succ, ih (first + 1), count,
        show first + 1 + index = first + (index + 1) by omega]
      constructor
      · rintro ⟨position, block, found, contained, rfl⟩
        refine ⟨(blocksFrom first 0 0 segment.instructions).length + position, block, ?_, contained,
          by omega⟩
        rwa [List.getElem?_append_right (Nat.le_add_right _ _), Nat.add_sub_cancel_left]
      · rintro ⟨position, block, found, contained, rfl⟩
        rw [List.getElem?_append] at found
        split at found
        · -- The blocks of the first segment do not have it.
          have own := segment_of_mem_blocksFrom (List.mem_of_getElem? found)
          have inside := Block.contains_iff.mp contained
          simp only at inside
          omega
        · exact ⟨_, block, found, contained, by omega⟩

/-- The blocks of a segment, among those of all. -/
theorem filter_blocksOf {segment : CodeSegment} (found : segments[index]? = some segment) :
    (blocksOf first segments).filter (·.segment == first + index) =
      blocksFrom (first + index) 0 0 segment.instructions := by
  induction segments generalizing first index with
  | nil => cases found
  | cons head rest ih =>
    rw [blocksOf, List.filter_append]
    cases index with
    | zero =>
      obtain rfl : head = segment := Option.some.inj found
      -- All blocks of this segment are kept, and none of the later ones.
      have here : (blocksFrom first 0 0 head.instructions).filter (·.segment == first + 0) =
          blocksFrom first 0 0 head.instructions :=
        List.filter_eq_self.mpr fun block listed => by simp [segment_of_mem_blocksFrom listed]
      have behind : (blocksOf (first + 1) rest).filter (·.segment == first + 0) = [] :=
        List.filter_eq_nil_iff.mpr fun block listed => by
          have := le_segment_of_mem_blocksOf listed
          simp
          omega
      rw [here, behind, List.append_nil, Nat.add_zero]
    | succ index =>
      -- This segment is not the one that is asked for, so none of its blocks is kept.
      have here : (blocksFrom first 0 0 head.instructions).filter
          (·.segment == first + (index + 1)) = [] :=
        List.filter_eq_nil_iff.mpr fun block listed => by
          simp [segment_of_mem_blocksFrom listed]
      rw [here, List.nil_append, show first + (index + 1) = first + 1 + index by omega]
      exact ih found

/-- A block is one of those of its segment. -/
theorem exists_of_mem_blocksOf (listed : block ∈ blocksOf first segments) :
    ∃ index segment, segments[index]? = some segment ∧ block.segment = first + index ∧
      block ∈ blocksFrom (first + index) 0 0 segment.instructions := by
  induction segments generalizing first with
  | nil => cases listed
  | cons head rest ih =>
    rcases List.mem_append.mp listed with here | behind
    · -- The segments are numbered from one further on behind the first one.
      exact ⟨0, head, rfl, segment_of_mem_blocksFrom here, here⟩
    · obtain ⟨index, segment, found, own, inside⟩ := ih behind
      rw [show first + 1 + index = first + (index + 1) by omega] at own inside
      exact ⟨index + 1, segment, found, own, inside⟩

/-- Blocks stand in the order of their segments. -/
theorem pairwise_blocksOf :
    (blocksOf first segments).Pairwise fun one other => one.segment ≤ other.segment := by
  induction segments generalizing first with
  | nil => exact .nil
  | cons head rest ih =>
    -- Within a segment all have the same number, and those behind it have a greater one.
    refine List.pairwise_append.mpr ⟨?_, ih, fun one here other behind => ?_⟩
    · refine List.pairwise_of_forall_mem_list fun one here other there => Nat.le_of_eq ?_
      rw [segment_of_mem_blocksFrom here, segment_of_mem_blocksFrom there]
    · have := segment_of_mem_blocksFrom here
      have := le_segment_of_mem_blocksOf behind
      omega

end Owners

namespace FlowGraph

/-- The blocks of a segment, in their order. -/
def blocksAt (graph : FlowGraph) (segment : Nat) : List Block :=
  graph.blocks.filter (·.segment == segment)

/-- The blocks of a graph divide its code, and every instruction is given the block it is in. -/
structure Partitioned (graph : FlowGraph) : Prop where
  /-- Blocks stand in the order of their segments. -/
  ordered : graph.blocks.Pairwise fun one other => one.segment ≤ other.segment
  /-- There are none but those of the segments. -/
  known : ∀ block ∈ graph.blocks, block.segment < graph.segments.length
  /-- The blocks of a segment follow each other from its first instruction to its last one. -/
  tiled : ∀ index segment, graph.segments[index]? = some segment →
    Block.Tiles index 0 segment.instructions.length (graph.blocksAt index)
  /-- Only a segment without instructions has no block. -/
  unfilled : ∀ index segment, graph.segments[index]? = some segment →
    (graph.blocksAt index = [] ↔ segment.instructions = [])
  /-- A branch is only ever the last instruction of a block. -/
  branches : ∀ block ∈ graph.blocks, ∀ ref instruction, block.contains ref = true →
    graph.instruction? ref = some instruction → instruction.branch? ≠ none →
      ref.index + 1 = block.stop
  /-- The last instruction says how control leaves a block. If it is no branch, then control goes on
  with the next block, and the block is the last one of its segment. -/
  ends : ∀ block ∈ graph.blocks, ∃ instruction,
    graph.instruction? ⟨block.segment, block.stop - 1⟩ = some instruction ∧
    (block.branch.kind = .fallthrough ↔ instruction.branch? = none) ∧
    (∀ branch, instruction.branch? = some branch → block.branch = branch) ∧
    (instruction.branch? = none → (graph.blocksAt block.segment).getLast? = some block)
  /-- Exactly the instructions of the graph have a block. -/
  owned : ∀ ref, (∃ number, graph.blockOf? ref = some number) ↔
    ∃ instruction, graph.instruction? ref = some instruction
  /-- It is the only one that has the instruction in it. -/
  only : ∀ ref number, graph.blockOf? ref = some number →
    (∃ block, graph.blocks[number]? = some block ∧ block.contains ref = true) ∧
    ∀ other block, graph.blocks[other]? = some block → block.contains ref = true → other = number

variable {segments : List CodeSegment} {ref : InstructionRef} {number index : Nat} {block : Block}

/-- The block of an instruction is the one that has it. -/
theorem blockOf?_build :
    (build segments).blockOf? ref = some number ↔
      ∃ block, (build segments).blocks[number]? = some block ∧ block.contains ref = true := by
  -- The owners are listed from the first block on, so that positions are numbers.
  have owner : (build segments).blockOf? ref = some number ↔ _ :=
    @owner_iff ref.segment ref.index 0 number segments 0
  rw [owner]
  simp only [Nat.zero_add]
  constructor
  · rintro ⟨position, block, found, contained, rfl⟩
    exact ⟨block, found, contained⟩
  · rintro ⟨block, found, contained⟩
    exact ⟨number, block, found, contained, rfl⟩

/-- The blocks of a segment are those that its own instructions are cut into. -/
theorem blocksAt_build {segment : CodeSegment}
    (found : (build segments).segments[index]? = some segment) :
    (build segments).blocksAt index = blocksFrom index 0 0 segment.instructions := by
  have own : (blocksOf 0 segments).filter (·.segment == 0 + index) = _ := filter_blocksOf found
  rwa [Nat.zero_add] at own

/-- A block is one that the instructions of its segment are cut into. -/
theorem cuts_of_mem_build (listed : block ∈ (build segments).blocks) :
    ∃ segment, (build segments).segments[block.segment]? = some segment ∧
      block ∈ blocksFrom block.segment 0 0 segment.instructions ∧
      block.Cuts segment.instructions := by
  obtain ⟨index, segment, found, own, inside⟩ := exists_of_mem_blocksOf listed
  rw [Nat.zero_add] at own inside
  subst own
  -- Nothing stands in front of the first instruction.
  have plain : ∀ place instruction, 0 ≤ place → ([] : List Instruction)[place]? = some instruction →
      instruction.branch? = none := by simp
  exact ⟨segment, found, inside, cuts_of_mem_blocksFrom rfl rfl plain inside⟩

/-- The instructions of a graph are those that have a block. -/
theorem owned_build :
    (∃ number, (build segments).blockOf? ref = some number) ↔
      ∃ instruction, (build segments).instruction? ref = some instruction := by
  -- The table has as many entries for each segment as there are instructions.
  have lengths : (ownersOf 0 segments)[ref.segment]?.map List.length =
      segments[ref.segment]?.map (·.instructions.length) := by
    rw [← List.getElem?_map, map_length_ownersOf, List.getElem?_map]
  show (∃ number, ((ownersOf 0 segments)[ref.segment]?.bind fun numbers => numbers[ref.index]?) =
    some number) ↔ ∃ instruction, (segments[ref.segment]?.bind fun segment =>
      segment.instructions[ref.index]?) = some instruction
  cases owners : (ownersOf 0 segments)[ref.segment]? with
  | none =>
    cases found : segments[ref.segment]? with
    | none => simp
    | some segment => simp [owners, found] at lengths
  | some numbers =>
    cases found : segments[ref.segment]? with
    | none => simp [owners, found] at lengths
    | some segment =>
      simp only [owners, found, Option.map_some, Option.some.injEq] at lengths
      simp [← Option.isSome_iff_exists, lengths]

/-- Blocks divide the code of every segment without a gap, each up to a branch or to the end, and
the block of an instruction is the only one that it is in. -/
theorem partitioned_build (segments : List CodeSegment) : (build segments).Partitioned where
  ordered := pairwise_blocksOf
  known := by
    intro block listed
    obtain ⟨segment, found, -⟩ := cuts_of_mem_build listed
    exact (List.getElem?_eq_some_iff.mp found).1
  tiled := by
    intro index segment found
    rw [blocksAt_build found]
    exact tiles_segment index segment.instructions
  unfilled := by
    intro index segment found
    rw [blocksAt_build found]
    have tiled := tiles_segment index segment.instructions
    constructor
    · -- Without a block all ends where it starts.
      intro none
      rw [none] at tiled
      cases instructions : segment.instructions with
      | nil => rfl
      | cons first rest =>
        rw [instructions] at tiled
        cases tiled
    · intro none
      rw [none]
      rfl
  branches := by
    intro block listed ref instruction contained found branches
    obtain ⟨segment, own, -, cuts⟩ := cuts_of_mem_build listed
    obtain ⟨same, after, before⟩ := Block.contains_iff.mp contained
    have here : segment.instructions[ref.index]? = some instruction := by
      simpa [instruction?, same, own] using found
    rcases Nat.lt_or_ge (ref.index + 1) block.stop with inner | last
    · -- Before the last instruction there is none that branches.
      exact absurd (cuts.inner ref.index instruction after inner here) branches
    · omega
  ends := by
    intro block listed
    obtain ⟨segment, own, inside, cuts⟩ := cuts_of_mem_build listed
    obtain ⟨instruction, found, branch, last⟩ := cuts.last
    refine ⟨instruction, ?_, ?_, fun other isBranch => ?_, fun plain => ?_⟩
    · simpa [instruction?, own] using found
    · cases kind : instruction.branch? with
      | none => simp [branch, kind]
      | some other => simpa [branch, kind] using kind_of_branch? kind
    · rw [branch, isBranch, Option.getD_some]
    · -- A block that ends with the segment has none after it.
      rw [blocksAt_build own]
      exact (tiles_segment _ _).getLast?_eq_some inside (last plain)
  owned := fun _ => owned_build
  only := by
    intro ref number place
    refine ⟨blockOf?_build.mp place, fun other block found contained => ?_⟩
    -- The table gives an instruction no more than one block.
    have also := blockOf?_build.mpr ⟨block, found, contained⟩
    rw [place] at also
    exact (Option.some.inj also).symm

end FlowGraph

end QuestScript
