import QuestScript.Proofs.Flow.Entries

/-! The edges of a flow graph: where control goes by itself, and where it goes when a call ends.

The second kind leads from the returns that are reached from a callee along edges of the first kind
to the block after the call. Blocks are linked one edge at a time, each in both directions. -/

namespace QuestScript

/-- Control can go from one block to another by itself, that is not by returning. -/
inductive Flows (segments : List CodeSegment) : Nat → Nat → Prop where
  /-- It goes on with the next block. -/
  | next {number : Nat} {block : Block} (found : (blocksOf 0 segments)[number]? = some block)
    (kind : block.branch.kind = .fallthrough ∨ block.branch.kind = .conditional)
    (behind : number + 1 < (blocksOf 0 segments).length) : Flows segments number (number + 1)
  /-- It goes to a label. -/
  | target {number entry : Nat} {block : Block} {label : Int32}
    (found : (blocksOf 0 segments)[number]? = some block) (named : label ∈ block.branch.targets)
    (enters : entryBlock? segments label = some entry) : Flows segments number entry

/-- A block ends with a call that can enter another one. -/
def Calls (segments : List CodeSegment) (caller callee : Nat) : Prop :=
  ∃ block, (blocksOf 0 segments)[caller]? = some block ∧ block.branch.kind = .call ∧
    ∃ label ∈ block.branch.targets, entryBlock? segments label = some callee

section Blocks

variable {segment start index number : Nat} {instructions : List Instruction} {block : Block}
  {segments : List CodeSegment}

/-- Every block ends with an instruction that is a branch, or goes on with the next one. -/
theorem branch_of_mem_blocksFrom (listed : block ∈ blocksFrom segment start index instructions) :
    block.branch = ⟨.fallthrough, []⟩ ∨
      ∃ instruction ∈ instructions, instruction.branch? = some block.branch := by
  induction instructions generalizing start index with
  | nil => cases listed
  | cons instruction rest ih =>
    unfold blocksFrom at listed
    split at listed
    · -- A branch ends the block that has begun, and the next one begins behind it.
      rename_i branch found
      rcases List.mem_cons.mp listed with rfl | behind
      · exact .inr ⟨instruction, List.mem_cons_self, found⟩
      · exact (ih behind).imp_right fun ⟨other, inside, same⟩ =>
          ⟨other, List.mem_cons_of_mem _ inside, same⟩
    · split at listed
      · -- The last instruction ends a block in any case.
        rw [List.mem_singleton.mp listed]
        exact .inl rfl
      · exact (ih listed).imp_right fun ⟨other, inside, same⟩ =>
          ⟨other, List.mem_cons_of_mem _ inside, same⟩

/-- A return names no label. -/
theorem targets_of_branch?_ret {instruction : Instruction} {branch : Branch}
    (found : instruction.branch? = some branch) (returns : branch.kind = .ret) :
    branch.targets = [] := by
  -- Of all the codes that branch, only that of a return makes a branch of its kind.
  simp only [Instruction.branch?] at found
  split at found
  · cases found
    rfl
  · repeat' split at found
    all_goals cases found
    all_goals cases returns

/-- A block that returns names no label. -/
theorem targets_of_ret {number : Nat} (listed : block ∈ blocksOf number segments)
    (returns : block.branch.kind = .ret) : block.branch.targets = [] := by
  induction segments generalizing number with
  | nil => cases listed
  | cons segment rest ih =>
    rcases List.mem_append.mp listed with here | behind
    · -- A block without a branch falls through and names nothing either.
      rcases branch_of_mem_blocksFrom here with falls | ⟨instruction, -, found⟩
      · rw [falls]
      · exact targets_of_branch?_ret found returns
    · exact ih behind

/-- A block returns if its kind says so. -/
theorem returnsAt_iff {blocks : List Block} :
    returnsAt blocks number = true ↔
      ∃ block, blocks[number]? = some block ∧ block.branch.kind = .ret := by
  simp [returnsAt, Option.any_eq_true]

end Blocks

section Flow

variable {segments : List CodeSegment} {number next caller callee : Nat} {block : Block}

/-- Control comes from blocks of the code. -/
theorem Flows.number_lt (flows : Flows segments number next) :
    number < (blocksOf 0 segments).length := by
  cases flows with
  | next found _ _ => exact (List.getElem?_eq_some_iff.mp found).1
  | target found _ _ => exact (List.getElem?_eq_some_iff.mp found).1

/-- Control comes to blocks of the code. -/
theorem Flows.next_lt (flows : Flows segments number next) :
    next < (blocksOf 0 segments).length := by
  cases flows with
  -- The next block is there, and so is the one that a label enters.
  | next _ _ behind => exact behind
  | target _ _ enters => exact entryBlock?_lt enters

/-- Control does not go on by itself from a return. -/
theorem Flows.not_returnsAt (flows : Flows segments number next) :
    returnsAt (blocksOf 0 segments) number = false := by
  rw [← Bool.not_eq_true, returnsAt_iff]
  rintro ⟨block, found, returns⟩
  -- It neither falls through nor names a label.
  cases flows with
  | next same kind _ =>
    cases Option.some.inj (found.symm.trans same)
    rw [returns] at kind
    rcases kind with kind | kind <;> cases kind
  | target same named _ =>
    cases Option.some.inj (found.symm.trans same)
    rw [targets_of_ret (List.mem_of_getElem? found) returns] at named
    cases named

/-- From a block from which control reaches one that does not return, it goes on as well. -/
theorem not_returnsAt_of_reaches (reaches : Relation.ReflTransGen (Flows segments) number next)
    (goesOn : returnsAt (blocksOf 0 segments) next = false) :
    returnsAt (blocksOf 0 segments) number = false := by
  -- The first step of the way comes from the block itself.
  rcases reaches.cases_head with rfl | ⟨middle, flows, -⟩
  · exact goesOn
  · exact flows.not_returnsAt

/-- A call is one of the ways that control goes by itself. -/
theorem Calls.flows (calls : Calls segments caller callee) : Flows segments caller callee := by
  obtain ⟨block, found, -, label, named, enters⟩ := calls
  exact .target found named enters

/-- The blocks that are found for a block are those that control goes to from it by itself. -/
theorem mem_directSuccessors (found : (blocksOf 0 segments)[number]? = some block) :
    next ∈ directSuccessors (entriesFrom 0 segments) (blocksOf 0 segments).length number block ↔
      Flows segments number next := by
  unfold directSuccessors
  constructor
  · intro listed
    -- Only two kinds of branches go on with the next block, if there is one.
    have either : ((block.branch.kind = .fallthrough ∨ block.branch.kind = .conditional) ∧
        number + 1 < (blocksOf 0 segments).length ∧ next = number + 1) ∨
        next ∈ block.branch.targets.filterMap (blockFor? (entriesFrom 0 segments)) := by
      cases kind : block.branch.kind <;> simp_all
    rcases either with ⟨kind, behind, rfl⟩ | target
    · exact .next found kind behind
    · obtain ⟨label, named, enters⟩ := List.mem_filterMap.mp target
      exact .target found named enters
  · intro flows
    have onward := flows.not_returnsAt
    cases flows with
    | next same kind behind =>
      cases Option.some.inj (found.symm.trans same)
      rcases kind with kind | kind <;> simp [kind, behind]
    | target same named enters =>
      cases Option.some.inj (found.symm.trans same)
      have target : next ∈ block.branch.targets.filterMap (blockFor? (entriesFrom 0 segments)) :=
        List.mem_filterMap.mpr ⟨_, named, enters⟩
      cases kind : block.branch.kind with
      | ret =>
        -- Control does not go on from a return.
        rw [returnsAt_iff.mpr ⟨block, found, kind⟩] at onward
        cases onward
      | jump => exact target
      | call => exact target
      | fallthrough => exact List.mem_append_right _ target
      | conditional => exact List.mem_append_right _ target

/-- The edges that are found for all blocks are those along which control goes by itself. -/
theorem mem_directEdges {edge : Edge} :
    edge ∈ directEdges (entriesFrom 0 segments) (blocksOf 0 segments) ↔
      Flows segments edge.1 edge.2 := by
  obtain ⟨number, next⟩ := edge
  simp only [directEdges, List.mem_flatMap, Prod.exists, List.mem_zipIdx_iff_getElem?, List.mem_map,
    Prod.mk.injEq]
  constructor
  · rintro ⟨block, place, found, target, listed, rfl, rfl⟩
    exact (mem_directSuccessors found).mp listed
  · intro flows
    -- Control comes from a block of the code.
    have found := List.getElem?_eq_getElem flows.number_lt
    exact ⟨_, number, found, next, (mem_directSuccessors found).mpr flows, rfl, rfl⟩

end Flow

namespace Links

variable {links after last : Links} {edge : Edge} {edges : List Edge} {number next count : Nat}
  {added more : Edge → Prop}

/-- Lists for so many blocks that say the same in both directions, and say nothing twice. -/
structure Sound (count : Nat) (links : Links) : Prop where
  outgoing_length : links.outgoing.length = count
  incoming_length : links.incoming.length = count
  mem_predecessors : ∀ number next,
    number ∈ links.predecessors next ↔ next ∈ links.successors number
  nodup_successors : ∀ number, (links.successors number).Nodup
  nodup_predecessors : ∀ number, (links.predecessors number).Nodup

/-- A list of lists in which one has become longer at the end. -/
theorem getD_modify {lists : List (List Nat)} {place item : Nat} (known : place < lists.length) :
    (lists.modify place (· ++ [item]))[number]?.getD [] =
      if number = place then lists[number]?.getD [] ++ [item] else lists[number]?.getD [] := by
  rw [List.getElem?_modify]
  split
  · -- The list is there to become longer.
    rename_i same
    subst same
    rw [if_pos rfl, List.getElem?_eq_getElem known]
    rfl
  · rename_i other
    rw [if_neg (Ne.symm other)]
    exact congrArg (Option.getD · []) Option.map_id'

/-- A new edge is added at the end of the successors of its start. -/
theorem successors_link (sound : links.Sound count) (start : edge.1 < count)
    (fresh : edge.2 ∉ links.successors edge.1) :
    (links.link edge).successors number =
      if number = edge.1 then links.successors number ++ [edge.2] else links.successors number := by
  -- The list of the start is modified, and it is one of the lists.
  rw [link, if_neg fresh]
  exact getD_modify (sound.outgoing_length ▸ start)

/-- It is added at the end of the predecessors of the block that it leads to. -/
theorem predecessors_link (sound : links.Sound count) (stop : edge.2 < count)
    (fresh : edge.2 ∉ links.successors edge.1) :
    (links.link edge).predecessors number =
      if number = edge.2 then links.predecessors number ++ [edge.1]
      else links.predecessors number := by
  -- The list of the end is modified, and it is one of the lists.
  rw [link, if_neg fresh]
  exact getD_modify (sound.incoming_length ▸ stop)

/-- Blocks that are not linked are linked soundly. -/
theorem sound_none : (none count).Sound count := by
  -- All lists are empty, also those of blocks that do not exist.
  have nothing : ∀ number : Nat, (List.replicate count ([] : List Nat))[number]?.getD [] = [] := by
    intro number
    rw [List.getElem?_replicate]
    split <;> rfl
  constructor <;> simp [none, successors, predecessors, nothing]

/-- The same blocks with some more edges. -/
structure Grows (count : Nat) (added : Edge → Prop) (links after : Links) : Prop where
  sound : after.Sound count
  mem_successors : ∀ number next,
    next ∈ after.successors number ↔ next ∈ links.successors number ∨ added (number, next)

/-- One more edge between two of the blocks is added in both directions. -/
theorem grows_link (sound : links.Sound count) (start : edge.1 < count) (stop : edge.2 < count) :
    links.Grows count (· = edge) (links.link edge) := by
  by_cases known : edge.2 ∈ links.successors edge.1
  · -- An edge that is there is not added again.
    rw [link, if_pos known]
    refine ⟨sound, fun number next => (or_iff_left_of_imp ?_).symm⟩
    rintro rfl
    exact known
  · -- A new edge is put at the end of both lists, and so stands in both of them once.
    have outgoing := fun number => @successors_link links edge number count sound start known
    have incoming := fun number => @predecessors_link links edge number count sound stop known
    have unknown : edge.1 ∉ links.predecessors edge.2 := fun listed =>
      known ((sound.mem_predecessors _ _).mp listed)
    have members : ∀ number next, next ∈ (links.link edge).successors number ↔
        next ∈ links.successors number ∨ (number, next) = edge := by
      intro number next
      rw [outgoing, Prod.ext_iff]
      split <;> simp_all
    refine ⟨⟨?_, ?_, fun number next => ?_, fun number => ?_, fun number => ?_⟩, members⟩
    · rw [link, if_neg known, List.length_modify, sound.outgoing_length]
    · rw [link, if_neg known, List.length_modify, sound.incoming_length]
    · rw [members, incoming, ← sound.mem_predecessors, Prod.ext_iff]
      split <;> simp_all
    · rw [outgoing]
      split
      · rename_i same
        subst same
        rw [← List.concat_eq_append]
        exact (sound.nodup_successors _).concat known
      · exact sound.nodup_successors number
    · rw [incoming]
      split
      · rename_i same
        subst same
        rw [← List.concat_eq_append]
        exact (sound.nodup_predecessors _).concat unknown
      · exact sound.nodup_predecessors number

/-- What is added in two steps is added together. -/
theorem Grows.trans (first : links.Grows count added after) (second : after.Grows count more last) :
    links.Grows count (fun edge => added edge ∨ more edge) last where
  sound := second.sound
  mem_successors number next := by
    -- An edge is there at last if the second step has added it, or the first one, or neither.
    rw [second.mem_successors, first.mem_successors, or_assoc]

/-- It does not matter how the edges are described. -/
theorem Grows.congr (grows : links.Grows count added after)
    (same : ∀ edge, added edge ↔ more edge) : links.Grows count more after where
  sound := grows.sound
  mem_successors number next := by rw [grows.mem_successors, same]

/-- Nothing is added by leaving the links as they are. -/
theorem Sound.grows (sound : links.Sound count) (nothing : ∀ edge, ¬added edge) :
    links.Grows count added links :=
  ⟨sound, fun _ _ => (or_iff_left (nothing _)).symm⟩

/-- Edges that are added one after another are all there in the end. -/
theorem grows_foldl_link (sound : links.Sound count)
    (known : ∀ edge ∈ edges, edge.1 < count ∧ edge.2 < count) :
    links.Grows count (· ∈ edges) (edges.foldl link links) := by
  induction edges generalizing links with
  | nil => exact sound.grows fun _ => List.not_mem_nil
  | cons edge rest ih =>
    -- The edge is between known blocks, and the others are added to the links with it.
    obtain ⟨start, stop⟩ := known edge List.mem_cons_self
    have here := grows_link sound start stop
    have others := ih here.sound fun other listed => known other (List.mem_cons_of_mem _ listed)
    exact (here.trans others).congr fun other => List.mem_cons.symm

end Links

section Search

variable {segments : List CodeSegment} {unseen stack rest : List Nat} {number next last ret : Nat}

/-- A way from one block to another along which control goes by itself, through unseen blocks. -/
inductive Leads (segments : List CodeSegment) (unseen : List Nat) : Nat → Nat → Prop where
  | here {number : Nat} (free : number ∈ unseen) : Leads segments unseen number number
  | step {number next last : Nat} (free : number ∈ unseen) (flows : Flows segments number next)
    (rest : Leads segments unseen next last) : Leads segments unseen number last

/-- A way starts at an unseen block. -/
theorem Leads.mem_unseen (leads : Leads segments unseen number last) : number ∈ unseen := by
  cases leads with
  | here free => exact free
  | step free _ _ => exact free

/-- A way is still there when more is unseen. -/
theorem Leads.mono {more : List Nat} (within : ∀ block ∈ unseen, block ∈ more)
    (leads : Leads segments unseen number last) : Leads segments more number last := by
  induction leads with
  | here free => exact .here (within _ free)
  -- Every block on the way was unseen, and still is.
  | step free flows _ ih => exact .step (within _ free) flows ih

/-- Control reaches the end of a way by itself. -/
theorem Leads.reaches (leads : Leads segments unseen number last) :
    Relation.ReflTransGen (Flows segments) number last := by
  induction leads with
  | here _ => exact .refl
  -- Each step follows an edge.
  | step _ flows _ ih => exact .head flows ih

/-- A way through all blocks leads wherever control goes by itself. -/
theorem leads_of_reaches (reaches : Relation.ReflTransGen (Flows segments) number last)
    (known : last < (blocksOf 0 segments).length) :
    Leads segments (List.range (blocksOf 0 segments).length) number last := by
  induction reaches using Relation.ReflTransGen.head_induction_on with
  | refl => exact .here (List.mem_range.mpr known)
  -- All blocks are unseen, so that none of them stops the way.
  | head first _ ih => exact .step (List.mem_range.mpr first.number_lt) first ih

/-- A way that comes through a block can start anew behind it the last time that it does so. -/
theorem Leads.avoids (leads : Leads segments unseen number last) (seen : Nat) :
    number ≠ seen ∧ Leads segments (unseen.erase seen) number last ∨ last = seen ∨
      ∃ next, Flows segments seen next ∧ Leads segments (unseen.erase seen) next last := by
  induction leads with
  | @here number free =>
    by_cases same : number = seen
    · exact .inr (.inl same)
    · exact .inl ⟨same, .here ((List.mem_erase_of_ne same).mpr free)⟩
  | @step number next last free flows _ ih =>
    rcases ih with ⟨-, apart⟩ | elsewhere
    · by_cases same : number = seen
      · -- The way does not come back, so that this is the last time.
        subst same
        exact .inr (.inr ⟨next, flows, apart⟩)
      · exact .inl ⟨same, .step ((List.mem_erase_of_ne same).mpr free) flows apart⟩
    · exact .inr elsewhere

/-- A search from the blocks of a stack through unseen blocks comes upon a block. -/
def Finds (segments : List CodeSegment) (unseen stack : List Nat) (found : Nat) : Prop :=
  ∃ start ∈ stack, ∃ last, Leads segments unseen start last ∧ Flows segments last found

/-- No search from no block comes upon any. -/
theorem not_finds_nil : ¬Finds segments unseen [] ret := by
  rintro ⟨start, listed, -⟩
  cases listed

/-- A block that has been seen is passed over. -/
theorem finds_cons_of_seen (seen : number ∉ unseen) :
    Finds segments unseen (number :: rest) ret ↔ Finds segments unseen rest ret := by
  constructor
  · rintro ⟨start, listed, last, leads, flows⟩
    rcases List.mem_cons.mp listed with rfl | waiting
    · -- No way starts at a block that has been seen.
      exact absurd leads.mem_unseen seen
    · exact ⟨start, waiting, last, leads, flows⟩
  · rintro ⟨start, listed, found⟩
    exact ⟨start, List.mem_cons_of_mem _ listed, found⟩

/-- A search that enters a block comes upon what follows it, and goes on from there without it.
From returns it need not go on. -/
theorem finds_cons_of_unseen {others : List Nat} (free : number ∈ unseen)
    (follow : ∀ next, next ∈ others ↔
      Flows segments number next ∧ returnsAt (blocksOf 0 segments) next = false) :
    Finds segments unseen (number :: rest) ret ↔
      Flows segments number ret ∨ Finds segments (unseen.erase number) (others ++ rest) ret := by
  constructor
  · rintro ⟨start, listed, last, leads, flows⟩
    rcases leads.avoids number with ⟨other, apart⟩ | rfl | ⟨behind, follows, anew⟩
    · -- A way that avoids the block starts at another one of the stack.
      have waiting : start ∈ rest := (List.mem_cons.mp listed).resolve_left other
      exact .inr ⟨start, List.mem_append_right _ waiting, last, apart, flows⟩
    · exact .inl flows
    · -- Control goes on behind the block, so that what follows it does not return.
      have goesOn := not_returnsAt_of_reaches anew.reaches flows.not_returnsAt
      have pushed := (follow behind).mpr ⟨follows, goesOn⟩
      exact .inr ⟨behind, List.mem_append_left _ pushed, last, anew, flows⟩
  · rintro (flows | ⟨start, listed, last, leads, flows⟩)
    · exact ⟨number, List.mem_cons_self, number, .here free, flows⟩
    · have wider := leads.mono fun block => List.mem_of_mem_erase
      rcases List.mem_append.mp listed with pushed | waiting
      · have follows := ((follow start).mp pushed).1
        exact ⟨number, List.mem_cons_self, last, .step free follows wider, flows⟩
      · exact ⟨start, List.mem_cons_of_mem _ waiting, last, wider, flows⟩

/-- A search through all blocks comes upon what control reaches by itself, other than where it
starts. -/
theorem finds_iff_reaches (other : ret ≠ number) :
    Finds segments (List.range (blocksOf 0 segments).length) [number] ret ↔
      Relation.ReflTransGen (Flows segments) number ret := by
  constructor
  · -- The way ends with a step to the return.
    rintro ⟨start, listed, last, leads, flows⟩
    obtain rfl := List.mem_singleton.mp listed
    exact leads.reaches.tail flows
  · intro reaches
    -- It has a last step, since it does not start at the return.
    rcases reaches.cases_tail with same | ⟨last, front, flows⟩
    · exact absurd same other
    · exact ⟨number, List.mem_cons_self, last, leads_of_reaches front flows.number_lt, flows⟩

end Search

section Build

variable {segments : List CodeSegment} {links after : Links} {added : Edge → Prop}
  {number next caller callee site : Nat} {unseen stack : List Nat}

/-- Links that lead from all blocks but those that return to where control goes by itself. -/
structure Agrees (segments : List CodeSegment) (links : Links) : Prop where
  sound : links.Sound (blocksOf 0 segments).length
  mem_successors : ∀ number, returnsAt (blocksOf 0 segments) number = false →
    ∀ next, next ∈ links.successors number ↔ Flows segments number next

/-- They still do so when edges from returns are added. -/
theorem Agrees.grow (agrees : Agrees segments links)
    (grows : links.Grows (blocksOf 0 segments).length added after)
    (back : ∀ edge, added edge → returnsAt (blocksOf 0 segments) edge.1 = true) :
    Agrees segments after where
  sound := grows.sound
  -- An edge from a return changes nothing for blocks that go on.
  mem_successors number goesOn next := by
    rw [grows.mem_successors, agrees.mem_successors number goesOn]
    refine or_iff_left fun new => ?_
    rw [back _ new] at goesOn
    cases goesOn

/-- A block that returns is one of the code. -/
theorem lt_of_returnsAt (returns : returnsAt (blocksOf 0 segments) number = true) :
    number < (blocksOf 0 segments).length := by
  obtain ⟨block, found, -⟩ := returnsAt_iff.mp returns
  exact (List.getElem?_eq_some_iff.mp found).1

/-- A search for returns links those that it comes upon, and no edge that it adds leads it
anywhere. -/
theorem grows_linkReturns (agrees : Agrees segments links)
    (known : site < (blocksOf 0 segments).length)
    (goOn : ∀ number ∈ stack, returnsAt (blocksOf 0 segments) number = false) :
    links.Grows (blocksOf 0 segments).length
      (fun edge => edge.2 = site ∧ returnsAt (blocksOf 0 segments) edge.1 = true ∧
        Finds segments unseen stack edge.1)
      (linkReturns (blocksOf 0 segments) site links unseen stack) := by
  fun_induction linkReturns (blocksOf 0 segments) site links unseen stack with
  | case1 links unseen => exact agrees.sound.grows fun edge found => not_finds_nil found.2.2
  | case2 links unseen number rest free returns others ih =>
    have follow := agrees.mem_successors number (goOn number List.mem_cons_self)
    -- The returns that follow the block are linked, which changes only their own successors.
    have linked : links.Grows (blocksOf 0 segments).length
        (fun edge => edge.2 = site ∧ returnsAt (blocksOf 0 segments) edge.1 = true ∧
          Flows segments number edge.1)
        ((returns.map fun ret => (ret, site)).foldl Links.link links) := by
      have listed : ∀ edge : Edge, edge ∈ (returns.map fun ret => (ret, site)) ↔
          edge.2 = site ∧ returnsAt (blocksOf 0 segments) edge.1 = true ∧
            Flows segments number edge.1 := by
        rintro ⟨ret, place⟩
        simp only [returns, List.mem_map, List.mem_filter, follow, Prod.mk.injEq]
        constructor
        · rintro ⟨other, ⟨flows, back⟩, rfl, rfl⟩
          exact ⟨rfl, back, flows⟩
        · rintro ⟨rfl, back, flows⟩
          exact ⟨ret, ⟨flows, back⟩, rfl, rfl⟩
      refine (Links.grows_foldl_link agrees.sound fun edge inside => ?_).congr listed
      obtain ⟨rfl, back, -⟩ := (listed edge).mp inside
      exact ⟨lt_of_returnsAt back, known⟩
    -- The other blocks that follow it are pushed, and lead on.
    have onward : ∀ next, next ∈ others.reverse ↔
        Flows segments number next ∧ returnsAt (blocksOf 0 segments) next = false := by
      simp [others, follow]
    have more := ih (agrees.grow linked fun edge new => new.2.1) fun next listed => by
      rcases List.mem_append.mp listed with pushed | waiting
      · exact ((onward next).mp pushed).2
      · exact goOn next (List.mem_cons_of_mem _ waiting)
    refine (linked.trans more).congr fun edge => ?_
    rw [finds_cons_of_unseen free onward, ← and_or_left, ← and_or_left]
  -- A block that has been seen is passed over.
  | case3 links unseen number rest seen ih =>
    have more := ih agrees fun next listed => goOn next (List.mem_cons_of_mem _ listed)
    exact more.congr fun edge => by rw [finds_cons_of_seen seen]

/-- The returns that are linked for a callee are those that control reaches from it by itself,
wherever the returns themselves lead to. -/
theorem grows_linkCallee (agrees : Agrees segments links)
    (known : site < (blocksOf 0 segments).length) :
    links.Grows (blocksOf 0 segments).length
      (fun edge => edge.2 = site ∧ returnsAt (blocksOf 0 segments) edge.1 = true ∧
        Relation.ReflTransGen (Flows segments) callee edge.1)
      (linkCallee (blocksOf 0 segments) site links callee) := by
  unfold linkCallee
  split
  · rename_i returns
    refine (Links.grows_link agrees.sound (lt_of_returnsAt returns) known).congr fun edge => ?_
    constructor
    · rintro rfl
      exact ⟨rfl, returns, .refl⟩
    · rintro ⟨stop, -, reaches⟩
      -- Control does not go on by itself from a callee that returns at once.
      rcases reaches.cases_head with same | ⟨middle, flows, -⟩
      · exact Prod.ext same.symm stop
      · rw [flows.not_returnsAt] at returns
        cases returns
  · rename_i goesOn
    refine (grows_linkReturns agrees known ?_).congr fun edge => ?_
    · intro number listed
      rw [List.mem_singleton.mp listed]
      exact Bool.eq_false_iff.mpr goesOn
    · refine and_congr_right fun _ => and_congr_right fun returns => finds_iff_reaches ?_
      -- The callee is none of the returns.
      rintro rfl
      exact goesOn returns

/-- Steps that add edges from returns add those of all of them, one after the other. -/
theorem Agrees.grows_foldl {α : Type} {step : Links → α → Links} {new : α → Edge → Prop}
    {items : List α} (agrees : Agrees segments links)
    (steps : ∀ item ∈ items, ∀ links, Agrees segments links →
      links.Grows (blocksOf 0 segments).length (new item) (step links item))
    (back : ∀ item edge, new item edge → returnsAt (blocksOf 0 segments) edge.1 = true) :
    links.Grows (blocksOf 0 segments).length (fun edge => ∃ item ∈ items, new item edge)
      (items.foldl step links) := by
  induction items generalizing links with
  | nil =>
    -- Without items there is no edge to add.
    refine agrees.sound.grows ?_
    rintro edge ⟨item, listed, -⟩
    cases listed
  | cons item rest ih =>
    -- The edges of the first item come from returns, so the links still agree with the code.
    have here := steps item List.mem_cons_self links agrees
    have others := ih (agrees.grow here (back item)) fun other listed =>
      steps other (List.mem_cons_of_mem _ listed)
    exact (here.trans others).congr fun edge => by simp

/-- Control returns from a block to the one after a caller, having come by itself from a callee. -/
def Resumes (segments : List CodeSegment) (caller number next : Nat) : Prop :=
  next = caller + 1 ∧ next < (blocksOf 0 segments).length ∧
    returnsAt (blocksOf 0 segments) number = true ∧
    ∃ callee, Calls segments caller callee ∧ Relation.ReflTransGen (Flows segments) callee number

/-- Linking a caller adds the edges along which control returns to it, whatever edges from returns
there are by then. -/
theorem grows_linkCaller (agrees : Agrees segments links) :
    links.Grows (blocksOf 0 segments).length (fun edge => Resumes segments caller edge.1 edge.2)
      (linkCaller (entriesFrom 0 segments) (blocksOf 0 segments) links caller) := by
  unfold linkCaller
  split
  · -- A number without a block makes no call.
    rename_i absent
    refine agrees.sound.grows ?_
    rintro edge ⟨-, -, -, callee, ⟨block, found, -⟩, -⟩
    cases absent.symm.trans found
  · rename_i block found
    split
    · rename_i calls
      refine (agrees.grows_foldl (fun callee _ links agrees => grows_linkCallee agrees calls.2)
        fun callee edge new => new.2.1).congr fun edge => ?_
      constructor
      · rintro ⟨callee, listed, rest, returns, reaches⟩
        obtain ⟨label, named, enters⟩ := List.mem_filterMap.mp listed
        exact ⟨rest, rest ▸ calls.2, returns, callee,
          ⟨block, found, calls.1, label, named, enters⟩, reaches⟩
      · rintro ⟨rest, -, returns, callee, ⟨other, same, -, label, named, enters⟩, reaches⟩
        cases Option.some.inj (found.symm.trans same)
        exact ⟨callee, List.mem_filterMap.mpr ⟨label, named, enters⟩, rest, returns, reaches⟩
    · -- Neither does a block of another kind, and there has to be one to return to.
      rename_i none
      refine agrees.sound.grows ?_
      rintro edge ⟨rest, behind, -, callee, ⟨other, same, calls, -⟩, -⟩
      cases Option.some.inj (found.symm.trans same)
      exact none ⟨calls, rest ▸ behind⟩

/-- At first there are the edges along which control goes by itself. -/
theorem grows_linkDirect :
    (Links.none (blocksOf 0 segments).length).Grows (blocksOf 0 segments).length
      (fun edge => Flows segments edge.1 edge.2)
      (linkDirect (entriesFrom 0 segments) (blocksOf 0 segments)) := by
  refine (Links.grows_foldl_link Links.sound_none fun edge listed => ?_).congr fun edge =>
    -- The edges are between known blocks.
    mem_directEdges
  have flows := mem_directEdges.mp listed
  exact ⟨flows.number_lt, flows.next_lt⟩

/-- No block follows another one that is not linked. -/
theorem mem_successors_linkDirect :
    next ∈ (linkDirect (entriesFrom 0 segments) (blocksOf 0 segments)).successors number ↔
      Flows segments number next := by
  rw [grows_linkDirect.mem_successors]
  -- Nothing is linked before.
  refine or_iff_right ?_
  rw [Links.successors, Links.none, List.getElem?_replicate]
  split <;> exact List.not_mem_nil

/-- Callers that are linked in some order add the edges along which control returns to them. -/
theorem grows_linkCallers (order : List Nat) :
    (linkDirect (entriesFrom 0 segments) (blocksOf 0 segments)).Grows (blocksOf 0 segments).length
      (fun edge => ∃ caller ∈ order, Resumes segments caller edge.1 edge.2)
      (order.foldl (linkCaller (entriesFrom 0 segments) (blocksOf 0 segments))
        (linkDirect (entriesFrom 0 segments) (blocksOf 0 segments))) := by
  have agrees : Agrees segments (linkDirect (entriesFrom 0 segments) (blocksOf 0 segments)) :=
    -- The edges that are added come from returns, and leave alone what the searches follow.
    ⟨grows_linkDirect.sound, fun _ _ _ => mem_successors_linkDirect⟩
  exact agrees.grows_foldl (fun caller _ links agrees => grows_linkCaller agrees)
    fun caller edge new => new.2.2.1

namespace FlowGraph

/-- Blocks are linked in both directions. -/
def Mirrored (graph : FlowGraph) : Prop :=
  ∀ number next, number ∈ graph.predecessors next ↔ next ∈ graph.successors number

/-- The lists of a graph say the same in both directions, and say nothing twice. -/
theorem sound_build : (build segments).links.Sound (blocksOf 0 segments).length :=
  (grows_linkCallers _).sound

/-- So its blocks are linked in both directions. -/
theorem mirrored_build : (build segments).Mirrored := sound_build.mem_predecessors

/-- Control goes to a successor by itself, or returns there to a caller. -/
theorem successors_build_iff :
    next ∈ (build segments).successors number ↔
      Flows segments number next ∨ ∃ caller, Resumes segments caller number next := by
  refine ((grows_linkCallers _).mem_successors number next).trans ?_
  rw [mem_successors_linkDirect]
  refine or_congr_right ⟨fun ⟨caller, _, resumes⟩ => ⟨caller, resumes⟩, ?_⟩
  -- Control returns only behind blocks of the code.
  rintro ⟨caller, resumes⟩
  obtain ⟨follows, behind, -⟩ := id resumes
  exact ⟨caller, List.mem_range.mpr (by omega), resumes⟩

end FlowGraph

/-- The edges of a flow graph are those along which control goes by itself, and those from the
returns that it reaches from a callee in this way to the block after the call. -/
theorem mem_successors_build :
    next ∈ (FlowGraph.build segments).successors number ↔
      Flows segments number next ∨
        ∃ caller callee, next = caller + 1 ∧ next < (blocksOf 0 segments).length ∧
          returnsAt (blocksOf 0 segments) number = true ∧ Calls segments caller callee ∧
          Relation.ReflTransGen (Flows segments) callee number := by
  -- Which call it is and which callee is entered may be said in either order.
  rw [FlowGraph.successors_build_iff]
  simp only [Resumes, exists_and_left]

end Build

end QuestScript
