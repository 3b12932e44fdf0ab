/-! Steps that may fail, one after the other. -/

namespace QuestScript

/-- A sequence of two steps succeeds if both do, one after the other. -/
theorem bind_eq_ok {ε σ α β : Type} {first : EStateM ε σ α} {second : α → EStateM ε σ β}
    {state last : σ} {result : β} (run : (first >>= second) state = .ok result last) :
    ∃ value next, first state = .ok value next ∧ second value next = .ok result last := by
  change EStateM.bind first second state = _ at run
  unfold EStateM.bind at run
  -- A failure of the first step would be the failure of the whole.
  cases step : first state with
  | ok value next =>
    rw [step] at run
    exact ⟨value, next, rfl, run⟩
  | error failure next =>
    rw [step] at run
    cases run

/-- After a step that succeeds comes the next one. -/
theorem bind_of_ok {ε σ α β : Type} {first : EStateM ε σ α} {second : α → EStateM ε σ β}
    {state next : σ} {value : α} (step : first state = .ok value next) :
    (first >>= second) state = second value next := by
  change EStateM.bind first second state = _
  unfold EStateM.bind
  rw [step]

/-- Nothing comes after a step that fails. -/
theorem bind_of_error {ε σ α β : Type} {first : EStateM ε σ α} {second : α → EStateM ε σ β}
    {state next : σ} {failure : ε} (step : first state = .error failure next) :
    (first >>= second) state = .error failure next := by
  change EStateM.bind first second state = _
  unfold EStateM.bind
  rw [step]

/-- The state that is left behind, whether a step fails or not. -/
def stateAfter {ε σ α : Type} : EStateM.Result ε σ α → σ
  | .ok _ state => state
  | .error _ state => state

/-- A step that reads nothing leaves everything as it was. -/
theorem pure_eq_ok {ε σ α : Type} {value result : α} {state last : σ}
    (run : (pure value : EStateM ε σ α) state = .ok result last) :
    value = result ∧ state = last := by
  cases run
  exact ⟨rfl, rfl⟩

/-- Two results of steps are joined if both steps succeed. -/
theorem except_bind_eq_ok {ε α β : Type} {first : Except ε α} {second : α → Except ε β} {result : β}
    (run : (first >>= second) = .ok result) :
    ∃ value, first = .ok value ∧ second value = .ok result := by
  cases first with
  -- A failure would have been the result.
  | error failure => cases run
  | ok value => exact ⟨value, rfl, run⟩

/-- A step for each of some items succeeds if each of them does. -/
theorem mapM_of_ok {ε α β : Type} {step : α → Except ε β} {value : α → β} {items : List α}
    (steps : ∀ item ∈ items, step item = .ok (value item)) :
    items.mapM step = .ok (items.map value) := by
  -- The items are taken in order, and each step leaves the others to do.
  induction items with
  | nil => rfl
  | cons item items ih =>
    rw [List.mapM_cons, steps item List.mem_cons_self,
      ih fun other found => steps other (List.mem_cons_of_mem _ found)]
    rfl

/-- Steps for some items succeed if there is a result for each of them. -/
theorem exists_mapM_eq_ok {ε α β : Type} {step : α → Except ε β} {items : List α}
    (steps : ∀ item ∈ items, ∃ value, step item = .ok value) :
    ∃ values, items.mapM step = .ok values := by
  induction items with
  | nil => exact ⟨[], rfl⟩
  | cons item items ih =>
    obtain ⟨value, first⟩ := steps item List.mem_cons_self
    obtain ⟨values, rest⟩ := ih fun other found => steps other (List.mem_cons_of_mem _ found)
    -- The results of the others stand behind the first one.
    refine ⟨value :: values, ?_⟩
    rw [List.mapM_cons, first, rest]
    rfl

/-- Steps for some items that succeed have succeeded for the first of them and for the others. -/
theorem mapM_cons_eq_ok {ε α β : Type} {step : α → Except ε β} {item : α} {items : List α}
    {values : List β} (run : (item :: items).mapM step = .ok values) :
    ∃ value others, step item = .ok value ∧ items.mapM step = .ok others ∧
      values = value :: others := by
  rw [List.mapM_cons] at run
  -- The first item is done before the others are looked at.
  obtain ⟨value, first, back⟩ := except_bind_eq_ok run
  obtain ⟨others, rest, made⟩ := except_bind_eq_ok back
  cases made
  exact ⟨value, others, first, rest, rfl⟩

/-- Where every result agrees with its item, all results do with all items. -/
theorem map_eq_of_mapM {ε α β γ : Type} {step : α → Except ε β} {measure : β → γ}
    {expected : α → γ} {items : List α} {values : List β}
    (agree : ∀ item ∈ items, ∀ value, step item = .ok value → measure value = expected item)
    (run : items.mapM step = .ok values) : values.map measure = items.map expected := by
  induction items generalizing values with
  | nil =>
    cases run
    rfl
  | cons item items ih =>
    obtain ⟨value, others, first, rest, rfl⟩ := mapM_cons_eq_ok run
    -- The first result agrees with its item, and then the others.
    obtain ⟨here, behind⟩ := List.forall_mem_cons.mp agree
    rw [List.map_cons, List.map_cons, here value first, ih behind rest]

/-- A step that can be made adds its value behind those of the steps before it. -/
theorem mapM_concat_of_ok {ε α β : Type} {step : α → Except ε β} {items : List α} {item : α}
    {values : List β} {value : β} (each : items.mapM step = .ok values)
    (last : step item = .ok value) : (items ++ [item]).mapM step = .ok (values ++ [value]) := by
  rw [List.mapM_append, each, List.mapM_cons, last]
  rfl

/-- Steps that succeed give one result for each item, in the same order. -/
theorem getElem?_mapM {ε α β : Type} {step : α → Except ε β} {items : List α} {values : List β}
    (run : items.mapM step = .ok values) :
    values.length = items.length ∧ ∀ (index : Nat) item, items[index]? = some item →
      ∃ value, values[index]? = some value ∧ step item = .ok value := by
  induction items generalizing values with
  | nil =>
    cases run
    exact ⟨rfl, by simp⟩
  | cons first rest ih =>
    obtain ⟨value, others, front, back, rfl⟩ := mapM_cons_eq_ok run
    obtain ⟨count, each⟩ := ih back
    refine ⟨by simp [count], fun index item found => ?_⟩
    -- The result for the first item comes first, and those of the others follow it.
    cases index with
    | zero =>
      cases found
      exact ⟨value, rfl, front⟩
    | succ index => exact each index item found

/-- Steps for some items succeed exactly if each of them does. -/
theorem exists_mapM_eq_ok_iff {ε α β : Type} {step : α → Except ε β} {items : List α} :
    (∃ values, items.mapM step = .ok values) ↔ ∀ item ∈ items, ∃ value, step item = .ok value := by
  constructor
  · intro ⟨values, run⟩ item listed
    -- An item has an index, at which its result stands.
    obtain ⟨index, found⟩ := List.mem_iff_getElem?.mp listed
    obtain ⟨value, -, made⟩ := (getElem?_mapM run).2 index item found
    exact ⟨value, made⟩
  · exact exists_mapM_eq_ok

/-- A step after which a result is only made of its value succeeds exactly if it does by itself. -/
theorem exists_bind_pure_eq_ok_iff {ε α β : Type} {step : Except ε α} {make : α → β} :
    (∃ result, (step >>= fun value => pure (make value)) = .ok result) ↔
      ∃ value, step = .ok value := by
  constructor
  · intro ⟨result, run⟩
    -- The result is made of the value of the step.
    obtain ⟨value, made, -⟩ := except_bind_eq_ok run
    exact ⟨value, made⟩
  · intro ⟨value, made⟩
    exact ⟨make value, by rw [made]; rfl⟩

/-- A step fails if it does not succeed. -/
theorem exists_eq_error_iff {ε α : Type} {step : Except ε α} :
    (∃ failure, step = .error failure) ↔ ¬∃ value, step = .ok value := by
  cases step with
  | error failure => simp
  | ok value => simp

end QuestScript
