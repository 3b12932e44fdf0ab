import QuestScript.Flow.Graph
import QuestScript.ValueSet

/-! Searching back along a flow graph for where a value comes from. -/

namespace QuestScript

/-- How far a search has come. -/
structure Search where
  /-- Blocks looked at, with repetitions. -/
  visits : Nat := 0
  journal : Journal := []
deriving Repr

/-- A step of a search. -/
abbrev Searching := StateM Search

/-- Blocks looked at before a search gives up. -/
def maxVisits : Nat := 100

namespace Search

/-- Counts a visit; false if it is one too many, which is logged. -/
def visit (topic : Topic) (subject : String) : Searching Bool := fun search =>
  let search := { search with visits := search.visits + 1 }
  if search.visits ≤ maxVisits then (true, search)
  else
    let entry := ⟨.debug, topic, s!"Giving up on {subject} after {maxVisits} iterations"⟩
    (false, { search with journal := search.journal ++ [entry] })

/-- The union of what `find` yields for some blocks.

On a path that comes back to one of its blocks a value may change in every round, so that nothing is
known about it; the same holds where there is no block at all. -/
def unionOver (find : Nat → Searching ValueSet) (path : List Nat) :
    List Nat → ValueSet → Searching ValueSet
  | [], found => pure (if found.isEmpty then .all else found)
  | number :: rest, found =>
    if number ∈ path then pure .all
    else do
      let here ← find number
      unionOver find path rest (found.union here)

end Search

/-- What is logged about an instruction that a graph does not have. -/
def strayJournal (topic : Topic) (ref : InstructionRef) : Journal :=
  [⟨.debug, topic,
    s!"No block contains instruction InstructionRef \x7b segment: {ref.segment}, " ++
      s!"index: {ref.index} \x7d"⟩]

end QuestScript
