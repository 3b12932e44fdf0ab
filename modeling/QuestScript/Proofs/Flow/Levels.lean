import QuestScript.Flow.Stack

/-! Searches back along a flow graph give up before they run out of levels.

Each level counts a visit before it goes deeper, and there are only so many visits to be made. -/

namespace QuestScript

/-- Searches that find the same, and leave the same, once so many visits have been counted.

No visit that was counted is forgotten. -/
def SameFrom {α : Type} (visits : Nat) (first second : Searching α) : Prop :=
  ∀ search : Search, visits ≤ search.visits →
    first.run search = second.run search ∧ visits ≤ (first.run search).2.visits

namespace SameFrom

variable {α β : Type} {visits : Nat}

/-- A value is found at once. -/
theorem pure (value : α) : SameFrom visits (Pure.pure value) (Pure.pure value) :=
  fun _ counted => ⟨rfl, counted⟩

/-- Searches that go on with the same from the same go on in the same way. -/
theorem bind {first second : Searching α} {more others : α → Searching β}
    (front : SameFrom visits first second)
    (back : ∀ value, SameFrom visits (more value) (others value)) :
    SameFrom visits (first >>= more) (second >>= others) := by
  intro search counted
  obtain ⟨same, later⟩ := front search counted
  -- The second part starts where the first has come to, with no fewer visits.
  have rest := back (first.run search).1 (first.run search).2 later
  refine ⟨?_, rest.2⟩
  change (more (first.run search).1).run (first.run search).2 =
    (others (second.run search).1).run (second.run search).2
  rw [← same]
  exact rest.1

/-- What is only logged counts no visit. -/
theorem note (entries : Journal) :
    SameFrom visits
      (modify fun search : Search => { search with journal := search.journal ++ entries })
      (modify fun search : Search => { search with journal := search.journal ++ entries }) :=
  fun _ counted => ⟨rfl, counted⟩

/-- The union of what the same searches find is the same. -/
theorem unionOver {find others : Nat → Searching ValueSet}
    (finds : ∀ number, SameFrom visits (find number) (others number)) (path numbers : List Nat)
    (found : ValueSet) :
    SameFrom visits (Search.unionOver find path numbers found)
      (Search.unionOver others path numbers found) := by
  induction numbers generalizing found with
  | nil => exact .pure _
  | cons number rest ih =>
    -- Both unions give up on the same path, and otherwise search the same block next.
    unfold Search.unionOver
    split
    · exact .pure _
    · exact (finds number).bind fun here => ih (found.union here)

/-- The last effect on a register is followed in the same way. -/
theorem lastValue {find others : List Instruction → Int32 → Searching ValueSet}
    {onward further : Searching ValueSet}
    (finds : ∀ before register, SameFrom visits (find before register) (others before register))
    (ends : SameFrom visits onward further) (register : Int32) (instructions : List Instruction) :
    SameFrom visits (QuestScript.lastValue find onward register instructions)
      (QuestScript.lastValue others further register instructions) := by
  induction instructions with
  | nil => exact ends
  | cons instruction before ih =>
    unfold QuestScript.lastValue
    cases instruction.effectOn? register with
    | none => exact ih
    | some effect =>
      -- The effect says which registers are looked for before it.
      cases effect with
      | unknown => exact .pure _
      | constant values => exact .pure values
      | copy source => exact finds before source
      | flip => exact (finds before register).bind fun _ => .pure _
      | add number => exact (finds before register).bind fun _ => .pure _
      | subtract number => exact (finds before register).bind fun _ => .pure _
      | multiply number => exact (finds before register).bind fun _ => .pure _
      | divide number => exact (finds before register).bind fun _ => .pure _
      | random bounds =>
        exact (finds before bounds).bind fun _ => (finds before (bounds + 1)).bind fun _ => .pure _
      | callArgument =>
        obtain ⟨pushed, beforeStart⟩ := callArgument before register
        cases pushed with
        | unknown => exact .pure _
        | value value => exact .pure _
        | register source =>
          -- An argument in a register is looked for where the list begins, or further back.
          refine (finds beforeStart source).bind fun values => ?_
          split
          · exact ih
          · exact .pure values

/-- Searches that count a visit first, and go deeper only if it is not one too many. -/
theorem visit {first second : Bool → Searching ValueSet} (topic : Topic) (subject : String)
    (givesUp : SameFrom visits (first false) (second false))
    (goesOn : visits < maxVisits → SameFrom (visits + 1) (first true) (second true)) :
    SameFrom visits (Search.visit topic subject >>= first)
      (Search.visit topic subject >>= second) := by
  intro search counted
  by_cases room : search.visits + 1 ≤ maxVisits
  · -- The visit is counted before the search goes deeper.
    have front : (Search.visit topic subject).run search =
        (true, { search with visits := search.visits + 1 }) := if_pos room
    have rest := goesOn (by omega) { search with visits := search.visits + 1 }
      (Nat.succ_le_succ counted)
    simp only [StateT.run_bind, front]
    exact ⟨rest.1, Nat.le_of_succ_le rest.2⟩
  · obtain ⟨entry, front⟩ : ∃ entry, (Search.visit topic subject).run search =
        (false,
          { search with visits := search.visits + 1, journal := search.journal ++ [entry] }) :=
      ⟨_, if_neg room⟩
    have rest := givesUp
      { search with visits := search.visits + 1, journal := search.journal ++ [entry] }
      (Nat.le_succ_of_le counted)
    simp only [StateT.run_bind, front]
    exact rest

/-- Searches that are the same before any visit are the same from their start. -/
theorem run_eq {first second : Searching α} (same : SameFrom 0 first second) :
    first.run {} = second.run {} :=
  (same {} (Nat.zero_le _)).1

end SameFrom

variable {levels others visits : Nat}

/-- The search for a register finds the same with more levels. -/
theorem sameFrom_registerBefore (graph : FlowGraph) (positive : 0 < levels)
    (alsoPositive : 0 < others) (enough : maxVisits < visits + levels)
    (alsoEnough : maxVisits < visits + others)
    (path : List Nat) (block : Nat) (instructions : List Instruction) (register : Int32) :
    SameFrom visits (registerBefore graph levels path block instructions register)
      (registerBefore graph others path block instructions register) := by
  -- A level less is left where a visit more has been counted.
  induction levels generalizing others visits path block instructions register with
  | zero => omega
  | succ levels ih =>
    cases others with
    | zero => omega
    | succ others =>
      unfold registerBefore
      refine .visit _ _ (.pure _) fun room => ?_
      have deeper (path : List Nat) (block : Nat) (instructions : List Instruction)
          (register : Int32) :
          SameFrom (visits + 1) (registerBefore graph levels path block instructions register)
            (registerBefore graph others path block instructions register) :=
        ih (by omega) (by omega) (by omega) (by omega) path block instructions register
      simp only [if_true]
      split
      · refine .lastValue (deeper path block) ?_ register instructions
        exact .unionOver (fun number => deeper _ number _ register) _ _ _
      · exact .pure _

/-- The search for a stack position finds the same with more levels. -/
theorem sameFrom_stackBefore (graph : FlowGraph) (positive : 0 < levels) (alsoPositive : 0 < others)
    (enough : maxVisits < visits + levels) (alsoEnough : maxVisits < visits + others)
    (path : List Nat) (block : Nat) (instructions : List Instruction) (position : Nat) :
    SameFrom visits (stackBefore graph levels path block instructions position)
      (stackBefore graph others path block instructions position) := by
  induction levels generalizing others visits path block instructions position with
  | zero => omega
  | succ levels ih =>
    cases others with
    | zero => omega
    | succ others =>
      unfold stackBefore
      refine .visit _ _ (.pure _) fun room => ?_
      simp only [if_true]
      -- A register that was pushed is looked for in a search of its own.
      cases stackSlot position instructions with
      | cleared => exact .pure _
      | pushed push before =>
        dsimp only
        cases push.pushed with
        | unknown => exact .pure _
        | value value => exact .pure _
        | register register => exact (SameFrom.note _).bind fun _ => .pure _
      | deeper position =>
        refine .unionOver (fun number => ?_) _ _ _
        exact ih (by omega) (by omega) (by omega) (by omega) _ _ _ _

end QuestScript
