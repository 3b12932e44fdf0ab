/-! Loops that end, and functions that run a loop for a bounded number of steps. -/

namespace QuestScript

/-- A loop that begins in a state goes through some states, that one first, and ends with a result.

The body of the loop says of a state what the next one is, or what the loop ends with. -/
inductive Loops {σ ρ : Type} (body : σ → σ ⊕ ρ) : σ → List σ → ρ → Prop where
  | stops {state : σ} {result : ρ} (ends : body state = .inr result) :
    Loops body state [state] result
  | goes {state next : σ} {visited : List σ} {result : ρ} (onward : body state = .inl next)
    (others : Loops body next visited result) : Loops body state (state :: visited) result

variable {σ ρ : Type} {body : σ → σ ⊕ ρ} {state : σ} {visited : List σ} {result : ρ}

/-- A bounded run is the whole loop, if what is left to do gets less with every step and the bound
is not.

A run that has no step left has to say what the loop ends with, unless there is still something
left to do. -/
theorem exists_loops {run : Nat → σ → ρ} (kept : σ → Prop) (left : σ → Nat)
    (unfolds : ∀ steps state, run (steps + 1) state = (body state).elim (run steps) id)
    (exhausted : ∀ state, kept state → left state = 0 → body state = .inr (run 0 state))
    (falls : ∀ state next, kept state → body state = .inl next →
      kept next ∧ left next < left state)
    {steps : Nat} (start : kept state) (enough : left state ≤ steps) :
    ∃ visited, Loops body state visited (run steps state) := by
  -- Every step takes one from the bound, and one at least from what is left.
  induction steps generalizing state with
  | zero => exact ⟨[state], .stops (exhausted state start (by omega))⟩
  | succ steps ih =>
    rw [unfolds]
    cases step : body state with
    | inl next =>
      obtain ⟨still, less⟩ := falls state next start step
      obtain ⟨visited, others⟩ := ih still (by omega)
      exact ⟨state :: visited, .goes step others⟩
    | inr result => exact ⟨[state], .stops step⟩

namespace Loops

/-- The first state of a loop is the one that it begins in. -/
theorem exists_cons (loops : Loops body state visited result) :
    ∃ later, visited = state :: later := by
  cases loops with
  | stops ends => exact ⟨[], rfl⟩
  | goes onward others => exact ⟨_, rfl⟩

/-- There is only one way for a loop to go. -/
theorem unique {others : List σ} {other : ρ} (loops : Loops body state visited result)
    (again : Loops body state others other) : visited = others ∧ result = other := by
  -- The body decides about every step.
  induction loops generalizing others other with
  | stops ends =>
    cases again with
    | stops same => exact ⟨rfl, Sum.inr.inj (ends.symm.trans same)⟩
    | goes onward rest => cases ends.symm.trans onward
  | goes onward rest ih =>
    cases again with
    | stops ends => cases onward.symm.trans ends
    | goes same more =>
      cases onward.symm.trans same
      obtain ⟨rfl, rfl⟩ := ih more
      exact ⟨rfl, rfl⟩

/-- What every step keeps holds of the last state, whose step ends the loop. -/
theorem exists_last (kept : σ → Prop)
    (keeps : ∀ state next, kept state → body state = .inl next → kept next)
    (loops : Loops body state visited result) (start : kept state) :
    ∃ earlier last, visited = earlier ++ [last] ∧ kept last ∧ body last = .inr result := by
  induction loops with
  | stops ends => exact ⟨[], _, rfl, start, ends⟩
  | goes onward others ih =>
    -- The step keeps it, so the rest of the loop starts with it.
    obtain ⟨earlier, last, rfl, still, ends⟩ := ih (keeps _ _ start onward)
    exact ⟨_ :: earlier, last, rfl, still, ends⟩

/-- A loop has no more steps than there is to do, and one in which it finds that nothing is. -/
theorem length_le (kept : σ → Prop) (left : σ → Nat)
    (falls : ∀ state next, kept state → body state = .inl next →
      kept next ∧ left next < left state)
    (loops : Loops body state visited result) (start : kept state) :
    visited.length ≤ left state + 1 := by
  induction loops with
  | stops ends => exact Nat.le_add_left 1 _
  | goes onward others ih =>
    -- One step is made, and less is left to do for the others.
    obtain ⟨still, less⟩ := falls _ _ start onward
    have rest := ih still
    rw [List.length_cons]
    omega

/-- Where every step takes a state to one after it, all states of the loop are in order. -/
theorem pairwise {before : σ → σ → Prop} (kept : σ → Prop)
    (trans : ∀ a b c, before a b → before b c → before a c)
    (moves : ∀ state next, kept state → body state = .inl next → kept next ∧ before state next)
    (loops : Loops body state visited result) (start : kept state) : visited.Pairwise before := by
  induction loops with
  | stops ends => exact List.pairwise_singleton _ _
  | goes onward others ih =>
    obtain ⟨still, first⟩ := moves _ _ start onward
    have ordered := ih still
    -- The next state is after this one, and all others are after the next one.
    obtain ⟨later, rfl⟩ := others.exists_cons
    refine List.pairwise_cons.mpr ⟨?_, ordered⟩
    intro other listed
    rcases List.mem_cons.mp listed with rfl | behind
    · exact first
    · exact trans _ _ _ first (List.rel_of_pairwise_cons ordered behind)

end Loops

/-- A loop that begins in a state ends with a result, and every state that it goes through is before
all later ones. -/
def Climbs (body : σ → σ ⊕ ρ) (before : σ → σ → Prop) (state : σ) (result : ρ) : Prop :=
  ∃ visited, Loops body state visited result ∧ visited.Pairwise before

/-- A bounded run is the whole loop, and its states are in order, if every step takes a state to one
after it and leaves less to do. -/
theorem climbs_of_bound {run : Nat → σ → ρ} {before : σ → σ → Prop} (kept : σ → Prop)
    (left : σ → Nat)
    (unfolds : ∀ steps state, run (steps + 1) state = (body state).elim (run steps) id)
    (exhausted : ∀ state, kept state → left state = 0 → body state = .inr (run 0 state))
    (moves : ∀ state next, kept state → body state = .inl next →
      kept next ∧ left next < left state ∧ before state next)
    (trans : ∀ a b c, before a b → before b c → before a c)
    {steps : Nat} (start : kept state) (enough : left state ≤ steps) :
    Climbs body before state (run steps state) := by
  -- That less is left makes the loop end, and that the states move makes their order.
  have falls : ∀ state next, kept state → body state = .inl next →
      kept next ∧ left next < left state := by
    intro state next still step
    obtain ⟨later, less, -⟩ := moves state next still step
    exact ⟨later, less⟩
  obtain ⟨visited, loops⟩ := exists_loops kept left unfolds exhausted falls start enough
  refine ⟨visited, loops, loops.pairwise kept trans ?_ start⟩
  intro state next still step
  obtain ⟨later, -, ordered⟩ := moves state next still step
  exact ⟨later, ordered⟩

end QuestScript
