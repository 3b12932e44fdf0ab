import QuestScript.Discovery.Harvest

/-! A harvest requests the labels that the code refers to, and no others.

An instruction refers to a label by an argument, by what it pops from the stack, or by what a
register holds. -/

namespace QuestScript

/-- A number is a label if it is not negative. -/
theorem labelOf?_eq_some {value : Int32} {label : Label} :
    labelOf? value = some label ↔ value.toInt = (label : Int) := by
  -- No label is a negative number.
  unfold labelOf?
  split
  · rename_i positive
    rw [Option.some.injEq]
    constructor
    · intro same
      rw [← same, Int.toNat_of_nonneg positive]
    · intro same
      rw [same, Int.toNat_natCast]
  · simp only [reduceCtorEq, false_iff]
    omega

/-- An argument has a whole number as its value if it is that. -/
theorem Arg.int?_eq_some {arg : Arg} {value : Int32} :
    arg.int? = some value ↔ arg = .int value := by
  cases arg <;> simp [Arg.int?]

/-- A label that an operand refers to, and the kind that it is to be decoded as. -/
inductive OperandNames : Param × List Arg → Label → SegmentKind → Prop where
  | single {param : Param} {args : List Arg} {value : Int32} {label : Label} {labelKind : LabelKind}
    {kind : SegmentKind} (single : param.variadic = false)
    (item : param.item = .scalar (.label labelKind)) (asks : Harvest.kindOf? labelKind = some kind)
    (given : args.head? = some (.int value)) (number : value.toInt = (label : Int)) :
    OperandNames (param, args) label kind
  | several {param : Param} {args : List Arg} {value : Int32} {label : Label}
    (variadic : param.variadic = true) (item : param.item = .scalar (.label .code))
    (given : .int value ∈ args) (number : value.toInt = (label : Int)) :
    OperandNames (param, args) label .code

/-- A label that an argument of an instruction refers to, and the kind that it is to be decoded as.

What an instruction pops from the stack is no argument of its own. -/
def Instruction.Names (instruction : Instruction) (label : Label) (kind : SegmentKind) : Prop :=
  instruction.opcode.pops = false ∧ ∃ operand ∈ instruction.operands, OperandNames operand label kind

/-- A label that an operand with `after` operands after it refers to, in whatever way, and the kind
that it is to be decoded as. -/
inductive OperandAsks (graph : FlowGraph) (bound : Nat) (ref : InstructionRef) (pops : Bool)
    (after : Nat) : Param × List Arg → Label → SegmentKind → Prop where
  /-- An argument is the label. -/
  | single {param : Param} {args : List Arg} {value : Int32} {label : Label} {labelKind : LabelKind}
    {kind : SegmentKind} (own : pops = false) (single : param.variadic = false)
    (item : param.item = .scalar (.label labelKind)) (asks : Harvest.kindOf? labelKind = some kind)
    (given : args.head? = some (.int value)) (number : value.toInt = (label : Int)) :
    OperandAsks graph bound ref pops after (param, args) label kind
  /-- One of several arguments is the label. -/
  | several {param : Param} {args : List Arg} {value : Int32} {label : Label}
    (variadic : param.variadic = true) (item : param.item = .scalar (.label .code))
    (given : .int value ∈ args) (number : value.toInt = (label : Int)) :
    OperandAsks graph bound ref pops after (param, args) label .code
  /-- The label is among the few values that may lie on the stack. -/
  | popped {param : Param} {args : List Arg} {values : List Int32} {value : Int32} {label : Label}
    {labelKind : LabelKind} {kind : SegmentKind} (popped : pops = true)
    (single : param.variadic = false) (item : param.item = .scalar (.label labelKind))
    (asks : Harvest.kindOf? labelKind = some kind)
    (few : (graph.stackValue ref after).1.resolve? bound = some values) (found : value ∈ values)
    (number : value.toInt = (label : Int)) :
    OperandAsks graph bound ref pops after (param, args) label kind
  /-- The label is among the few values that a register of a tuple may hold. -/
  | register {param : Param} {args : List Arg} {elements : List TupleElement} {first value : Int32}
    {step : Nat} {element : TupleElement} {values : List Int32} {label : Label} (own : pops = false)
    (single : param.variadic = false) (item : param.item = .tuple elements)
    (given : args.head? = some (.int first)) (listed : elements[step]? = some element)
    (type : element.type = .label .code)
    (few : (graph.registerValue ref (first + .ofNat step)).1.resolve? bound = some values)
    (found : value ∈ values) (number : value.toInt = (label : Int)) :
    OperandAsks graph bound ref pops after (param, args) label .code

/-- A label that an instruction refers to, in whatever way. -/
def Instruction.Asks (graph : FlowGraph) (bound : Nat) (ref : InstructionRef)
    (instruction : Instruction) (label : Label) (kind : SegmentKind) : Prop :=
  ∃ position operand, instruction.operands[position]? = some operand ∧
    OperandAsks graph bound ref instruction.opcode.pops
      (instruction.operands.length - (position + 1)) operand label kind

/-- What an argument refers to does not depend on the flow of control. -/
theorem Instruction.Names.asks {instruction : Instruction} {label : Label} {kind : SegmentKind}
    (names : instruction.Names label kind) (graph : FlowGraph) (bound : Nat)
    (ref : InstructionRef) :
    instruction.Asks graph bound ref label kind := by
  -- An operand of the list has a position in it, and the two ways to name a label are two to ask
  -- for it.
  obtain ⟨own, operand, listed, named⟩ := names
  obtain ⟨position, found⟩ := List.mem_iff_getElem?.mp listed
  refine ⟨position, operand, found, ?_⟩
  cases named with
  | single single item asks given number => exact .single own single item asks given number
  | several variadic item given number => exact .several variadic item given number

/-- A label that the code of a discovery refers to, where that is not resolved yet. -/
def Discovery.Resolves (state : Discovery) (bound : Nat) (label : Label) (kind : SegmentKind) :
    Prop :=
  ∃ (number offset : Nat) (segment : CodeSegment) (index : Nat) (instruction : Instruction),
    state.codeSegments[number]? = some (offset, segment) ∧ offset ∉ state.analyzed ∧
      segment.instructions[index]? = some instruction ∧
      instruction.Asks (.build (state.codeSegments.map (·.2))) bound ⟨number, index⟩ label kind

namespace Requests

variable {requests : Requests} {label other : Label} {kind wanted : SegmentKind}

/-- A label is requested as a kind, or as one of higher priority. -/
def Covers (requests : Requests) (label : Label) (kind : SegmentKind) : Prop :=
  ∃ wanted, (label, wanted) ∈ requests ∧ kind.priority ≤ wanted.priority

/-- A request that is added is there. -/
theorem covers_raise_self : (requests.raise label kind).Covers label kind := by
  -- Requests for lower labels are passed over.
  induction requests with
  | nil => exact ⟨kind, List.mem_singleton.mpr rfl, Nat.le_refl _⟩
  | cons first rest ih =>
    unfold raise
    split
    · exact ⟨kind, List.mem_cons_self, Nat.le_refl _⟩
    · split
      · -- Of two requests for the label the one of higher priority is there.
        rename_i same
        split
        · exact ⟨kind, List.mem_cons_self, Nat.le_refl _⟩
        · rename_i enough
          refine ⟨first.2, ?_, Nat.le_of_not_lt enough⟩
          rw [same]
          exact List.mem_cons_self
      · obtain ⟨wanted, listed, higher⟩ := ih
        exact ⟨wanted, List.mem_cons_of_mem first listed, higher⟩

/-- A request stays when another is added. -/
theorem Covers.raise (covers : requests.Covers label kind) :
    (requests.raise other wanted).Covers label kind := by
  obtain ⟨known, listed, higher⟩ := covers
  induction requests with
  | nil => cases listed
  | cons first rest ih =>
    unfold Requests.raise
    split
    · exact ⟨known, List.mem_cons_of_mem _ listed, higher⟩
    · split
      · rename_i same
        rcases List.mem_cons.mp listed with rfl | behind
        · -- Only a higher priority takes the place of a request.
          split
          · rename_i lower
            exact ⟨wanted, same ▸ List.mem_cons_self, Nat.le_trans higher (Nat.le_of_lt lower)⟩
          · exact ⟨known, List.mem_cons_self, higher⟩
        · exact ⟨known, List.mem_cons_of_mem _ behind, higher⟩
      · rcases List.mem_cons.mp listed with rfl | behind
        · exact ⟨known, List.mem_cons_self, higher⟩
        · obtain ⟨found, inside, enough⟩ := ih behind
          exact ⟨found, List.mem_cons_of_mem _ inside, enough⟩

/-- A request that is there after one was added is that one, or was there before. -/
theorem mem_of_mem_raise (listed : (label, kind) ∈ requests.raise other wanted) :
    label = other ∧ kind = wanted ∨ (label, kind) ∈ requests := by
  induction requests with
  | nil => exact .inl (Prod.mk.inj (List.mem_singleton.mp listed))
  | cons first rest ih =>
    unfold raise at listed
    split at listed
    · exact (List.mem_cons.mp listed).imp_left Prod.mk.inj
    · split at listed
      · -- The first request stays, or the other takes its place.
        rcases List.mem_cons.mp listed with same | behind
        · split at same
          · exact .inl (Prod.mk.inj same)
          · exact .inr (same ▸ List.mem_cons_self)
        · exact .inr (List.mem_cons_of_mem first behind)
      · rcases List.mem_cons.mp listed with same | behind
        · exact .inr (same ▸ List.mem_cons_self)
        · exact (ih behind).imp_right (List.mem_cons_of_mem first)

end Requests

namespace Harvest

/-- A harvest with all that another has. -/
def Within (harvest more : Harvest) : Prop :=
  ∀ label kind, harvest.requests.Covers label kind → more.requests.Covers label kind

variable {graph : FlowGraph} {bound : Nat} {ref : InstructionRef} {harvest more : Harvest}
  {label : Label} {kind : SegmentKind}

/-- A harvest has all that it has. -/
theorem Within.refl (harvest : Harvest) : harvest.Within harvest := fun _ _ covers => covers

/-- What is kept twice is kept. -/
theorem Within.trans {most : Harvest} (first : harvest.Within more) (second : more.Within most) :
    harvest.Within most :=
  fun label kind covers => second label kind (first label kind covers)

/-- A reference joins what has been harvested. -/
theorem within_request (harvest : Harvest) (kind : SegmentKind) (value : Int32) :
    harvest.Within (harvest.request kind value) := by
  -- A negative number is only logged.
  intro other wanted covers
  unfold request
  split
  · exact covers.raise
  · exact covers

/-- References join what has been harvested. -/
theorem within_requestAll (harvest : Harvest) (kind : SegmentKind) (values : List Int32) :
    harvest.Within (harvest.requestAll kind values) := by
  -- The values are requested one after another.
  unfold requestAll
  induction values generalizing harvest with
  | nil => exact .refl harvest
  | cons value values ih => exact (within_request harvest kind value).trans (ih _)

/-- Every reference to a label is requested. -/
theorem covers_requestAll {values : List Int32} {value : Int32} (given : value ∈ values)
    (number : value.toInt = (label : Int)) :
    (harvest.requestAll kind values).requests.Covers label kind := by
  unfold requestAll
  induction values generalizing harvest with
  | nil => cases given
  | cons first values ih =>
    rcases List.mem_cons.mp given with rfl | behind
    · -- What is requested now is there to the end.
      refine within_requestAll (harvest.request kind value) kind values label kind ?_
      simp only [request, labelOf?_eq_some.mpr number]
      exact Requests.covers_raise_self
    · exact ih behind

/-- What an analysis yields joins what has been harvested. -/
theorem within_requestValues (harvest : Harvest) (bound : Nat) (kind : SegmentKind)
    (found : ValueSet × Journal) : harvest.Within (harvest.requestValues bound kind found).2 := by
  -- Too many values are not requested at all.
  unfold requestValues
  dsimp only
  split
  · exact within_requestAll { harvest with journal := harvest.journal ++ found.2 } kind _
  · exact .refl harvest

/-- What registers hold joins what has been harvested. -/
theorem within_harvestRegisters (graph : FlowGraph) (bound : Nat) (ref : InstructionRef)
    (first : Int32) (step : Nat) (elements : List TupleElement) (harvest : Harvest) :
    harvest.Within (harvestRegisters graph bound ref first step elements harvest).2 := by
  -- Registers that refer to nothing are passed over.
  induction elements generalizing step harvest with
  | nil => exact .refl harvest
  | cons element rest ih =>
    unfold harvestRegisters
    split
    · exact (within_requestValues harvest bound .code _).trans (ih _ _)
    · exact ih _ _

/-- What an operand refers to joins what has been harvested. -/
theorem within_harvestOperand (graph : FlowGraph) (bound : Nat) (ref : InstructionRef) (pops : Bool)
    (after : Nat) (operand : Param × List Arg) (harvest : Harvest) :
    harvest.Within (harvestOperand graph bound ref pops after operand harvest).2 := by
  -- The type of the parameter says where its labels come from.
  unfold harvestOperand
  dsimp only
  split
  · split
    · exact .refl harvest
    · split
      · exact within_requestValues harvest bound _ _
      · exact within_requestAll harvest _ _
  · exact within_requestAll harvest _ _
  · split
    · exact within_harvestRegisters graph bound ref _ 0 _ harvest
    · exact .refl harvest
  · exact .refl harvest

/-- What operands refer to joins what has been harvested. -/
theorem within_harvestOperands (graph : FlowGraph) (bound : Nat) (ref : InstructionRef)
    (pops : Bool) (operands : List (Param × List Arg)) (harvest : Harvest) :
    harvest.Within (harvestOperands graph bound ref pops operands harvest).2 := by
  -- The operands are taken in order, and none takes back what another one has added.
  induction operands generalizing harvest with
  | nil => exact .refl harvest
  | cons operand rest ih =>
    exact (within_harvestOperand graph bound ref pops rest.length operand harvest).trans (ih _)

/-- What code refers to joins what has been harvested. -/
theorem within_harvestCode (graph : FlowGraph) (bound : Nat) (ref : InstructionRef)
    (instructions : List Instruction) (harvest : Harvest) :
    harvest.Within (harvestCode graph bound ref instructions harvest).2 := by
  -- Each instruction adds what its operands refer to.
  induction instructions generalizing ref harvest with
  | nil => exact .refl harvest
  | cons instruction rest ih =>
    exact (within_harvestOperands graph bound ref _ _ harvest).trans (ih _ _)

/-- What segments refer to joins what has been harvested. -/
theorem within_harvestSegments (graph : FlowGraph) (bound : Nat) (analyzed : List Nat) (number : Nat)
    (code : List (Nat × CodeSegment)) (harvest : Harvest) :
    harvest.Within (harvestSegments graph bound analyzed number code harvest).2 := by
  -- A segment that is resolved already adds nothing.
  induction code generalizing number harvest with
  | nil => exact .refl harvest
  | cons entry rest ih =>
    unfold harvestSegments
    split
    · exact ih _ _
    · exact (within_harvestCode graph bound _ _ harvest).trans (ih _ _)

/-- The few values that an analysis yields are requested. -/
theorem covers_requestValues {found : ValueSet × Journal} {values : List Int32} {value : Int32}
    (few : found.1.resolve? bound = some values) (given : value ∈ values)
    (number : value.toInt = (label : Int)) :
    (harvest.requestValues bound kind found).2.requests.Covers label kind := by
  simp only [requestValues, few]
  exact covers_requestAll given number

/-- The registers of a tuple are harvested. -/
theorem covers_harvestRegisters {first : Int32} {step place : Nat} {elements : List TupleElement}
    {element : TupleElement} {values : List Int32} {value : Int32}
    (listed : elements[place]? = some element) (type : element.type = .label .code)
    (few : (graph.registerValue ref (first + .ofNat (step + place))).1.resolve? bound = some values)
    (given : value ∈ values) (number : value.toInt = (label : Int)) :
    (harvestRegisters graph bound ref first step elements harvest).2.requests.Covers label
      .code := by
  induction elements generalizing step place harvest with
  | nil => cases listed
  | cons head rest ih =>
    unfold harvestRegisters
    cases place with
    | zero =>
      cases listed
      rw [if_pos type]
      exact within_harvestRegisters graph bound ref first _ rest _ label .code
        (covers_requestValues few given number)
    | succ place =>
      -- The registers after the first are one step further on.
      rw [Nat.add_succ, ← Nat.succ_add] at few
      split
      · exact ih listed few
      · exact ih listed few

/-- An operand is harvested. -/
theorem covers_harvestOperand {pops : Bool} {after : Nat} {operand : Param × List Arg}
    (asks : OperandAsks graph bound ref pops after operand label kind) :
    (harvestOperand graph bound ref pops after operand harvest).2.requests.Covers label kind := by
  -- Each way to ask is met by its own case of the harvest.
  cases asks with
  | single own single item asks given number =>
    subst own
    simp only [harvestOperand, item, single, asks, given]
    exact covers_requestAll (List.mem_singleton.mpr rfl) number
  | several variadic item given number =>
    simp only [harvestOperand, item, variadic]
    exact covers_requestAll (List.mem_filterMap.mpr ⟨_, given, rfl⟩) number
  | popped popped single item asks few found number =>
    subst popped
    simp only [harvestOperand, item, single, asks]
    exact covers_requestValues few found number
  | @register param args elements first value step element values label own single item given listed
      type few found number =>
    subst own
    rw [← Nat.zero_add step] at few
    simp only [harvestOperand, item, single, given]
    exact covers_harvestRegisters listed type few found number

/-- Every operand is harvested. -/
theorem covers_harvestOperands {pops : Bool} {operands : List (Param × List Arg)} {position : Nat}
    {operand : Param × List Arg} (listed : operands[position]? = some operand)
    (asks :
      OperandAsks graph bound ref pops (operands.length - (position + 1)) operand label kind) :
    (harvestOperands graph bound ref pops operands harvest).2.requests.Covers label kind := by
  induction operands generalizing position harvest with
  | nil => cases listed
  | cons first rest ih =>
    rw [List.length_cons, Nat.add_sub_add_right] at asks
    cases position with
    | zero =>
      cases listed
      -- The operands after it add to what it has requested.
      exact within_harvestOperands graph bound ref pops rest _ label kind
        (covers_harvestOperand asks)
    | succ position => exact ih listed asks

/-- Every instruction is harvested. -/
theorem covers_harvestCode {instructions : List Instruction} {place : Nat}
    {instruction : Instruction} (listed : instructions[place]? = some instruction)
    (asks : instruction.Asks graph bound { ref with index := ref.index + place } label kind) :
    (harvestCode graph bound ref instructions harvest).2.requests.Covers label kind := by
  -- The place counts from the front of what is left, and the index of the instruction goes up with
  -- it.
  induction instructions generalizing ref place harvest with
  | nil => cases listed
  | cons first rest ih =>
    cases place with
    | zero =>
      cases listed
      -- What this instruction adds is kept while the others are harvested.
      obtain ⟨position, operand, carried, asked⟩ := asks
      exact within_harvestCode graph bound _ rest _ label kind
        (covers_harvestOperands carried asked)
    | succ place =>
      rw [Nat.add_succ, ← Nat.succ_add] at asks
      exact ih listed asks

/-- Every segment is harvested that was not before. -/
theorem covers_harvestSegments {analyzed : List Nat} {number place offset index : Nat}
    {code : List (Nat × CodeSegment)} {segment : CodeSegment} {instruction : Instruction}
    (listed : code[place]? = some (offset, segment)) (due : offset ∉ analyzed)
    (used : segment.instructions[index]? = some instruction)
    (asks : instruction.Asks graph bound ⟨number + place, index⟩ label kind) :
    (harvestSegments graph bound analyzed number code harvest).2.requests.Covers label kind := by
  induction code generalizing number place harvest with
  | nil => cases listed
  | cons entry rest ih =>
    unfold harvestSegments
    cases place with
    | zero =>
      -- The segment is due, and what it adds is kept while the others are harvested.
      cases listed
      have fresh : ¬analyzed.contains offset = true := by simpa using due
      rw [if_neg fresh]
      rw [← Nat.zero_add index] at asks
      exact within_harvestSegments graph bound analyzed _ rest _ label kind
        (covers_harvestCode used asks)
    | succ place =>
      rw [Nat.add_succ, ← Nat.succ_add] at asks
      split
      · exact ih listed asks
      · exact ih listed asks

/-- A request that is there after a reference was added is for that, or was there before. -/
theorem mem_requestAll {wanted : SegmentKind} {values : List Int32}
    (listed : (label, kind) ∈ (harvest.requestAll wanted values).requests) :
    (label, kind) ∈ harvest.requests ∨
      kind = wanted ∧ ∃ value ∈ values, value.toInt = (label : Int) := by
  -- The values are gone through backwards: the last request decides, unless it was there before it.
  unfold requestAll at listed
  induction values generalizing harvest with
  | nil => exact .inl listed
  | cons first values ih =>
    rcases ih listed with before | ⟨same, value, given, number⟩
    · change (label, kind) ∈ (harvest.request wanted first).requests at before
      unfold request at before
      split at before
      · rename_i other found
        -- The request is for this value, or raises another one.
        rcases Requests.mem_of_mem_raise before with ⟨rfl, rfl⟩ | earlier
        · exact .inr ⟨rfl, first, List.mem_cons_self, labelOf?_eq_some.mp found⟩
        · exact .inl earlier
      · exact .inl before
    · exact .inr ⟨same, value, List.mem_cons_of_mem first given, number⟩

/-- What an analysis yields is requested only if it is few values. -/
theorem mem_requestValues {wanted : SegmentKind} {found : ValueSet × Journal}
    (listed : (label, kind) ∈ (harvest.requestValues bound wanted found).2.requests) :
    (label, kind) ∈ harvest.requests ∨ kind = wanted ∧ ∃ values,
      found.1.resolve? bound = some values ∧ ∃ value ∈ values, value.toInt = (label : Int) := by
  -- Values are only requested if they are resolved.
  unfold requestValues at listed
  dsimp only at listed
  split at listed
  · rename_i values few
    rcases mem_requestAll listed with before | ⟨same, given⟩
    · exact .inl before
    · exact .inr ⟨same, values, few, given⟩
  · exact .inl listed

/-- What the registers of a tuple hold is requested only for labels of code. -/
theorem mem_harvestRegisters {first : Int32} {step : Nat} {elements : List TupleElement}
    (listed : (label, kind) ∈
      (harvestRegisters graph bound ref first step elements harvest).2.requests) :
    (label, kind) ∈ harvest.requests ∨ kind = .code ∧ ∃ (place : Nat) (element : TupleElement),
      elements[place]? = some element ∧ element.type = .label .code ∧ ∃ values,
        (graph.registerValue ref (first + .ofNat (step + place))).1.resolve? bound = some values ∧
          ∃ value ∈ values, value.toInt = (label : Int) := by
  induction elements generalizing step harvest with
  | nil => exact .inl listed
  | cons head rest ih =>
    unfold harvestRegisters at listed
    -- What a later register adds is one step further on.
    have later : ∀ {earlier : Harvest}, (label, kind) ∈
        (harvestRegisters graph bound ref first (step + 1) rest earlier).2.requests →
        (label, kind) ∈ earlier.requests ∨ kind = .code ∧ ∃ (place : Nat) (element : TupleElement),
          (head :: rest)[place]? = some element ∧ element.type = .label .code ∧ ∃ values,
            (graph.registerValue ref (first + .ofNat (step + place))).1.resolve? bound =
                some values ∧ ∃ value ∈ values, value.toInt = (label : Int) := by
      intro earlier found
      rcases ih found with before | ⟨same, place, element, there, type, values, few, given⟩
      · exact .inl before
      · rw [Nat.succ_add, ← Nat.add_succ] at few
        exact .inr ⟨same, place + 1, element, there, type, values, few, given⟩
    -- Only registers with labels of code are looked at.
    split at listed
    · rename_i type
      rcases later listed with before | found
      · rcases mem_requestValues before with earlier | ⟨same, values, few, given⟩
        · exact .inl earlier
        · exact .inr ⟨same, 0, head, rfl, type, values, few, given⟩
      · exact .inr found
    · exact later listed

/-- What an operand refers to is all that it adds. -/
theorem mem_harvestOperand {pops : Bool} {after : Nat} {operand : Param × List Arg}
    (listed : (label, kind) ∈
      (harvestOperand graph bound ref pops after operand harvest).2.requests) :
    (label, kind) ∈ harvest.requests ∨
      OperandAsks graph bound ref pops after operand label kind := by
  -- The type of the parameter says where its labels come from.
  obtain ⟨param, args⟩ := operand
  have argument : ∀ {value : Int32}, args.head?.bind Arg.int? = some value →
      args.head? = some (.int value) := by
    intro value given
    obtain ⟨arg, front, whole⟩ := Option.bind_eq_some_iff.mp given
    rw [front, Arg.int?_eq_some.mp whole]
  unfold harvestOperand at listed
  dsimp only at listed
  split at listed
  · rename_i labelKind item single
    -- One label, from the stack or from its own argument.
    split at listed
    · exact .inl listed
    · rename_i wanted asks
      split at listed
      · rename_i popped
        rcases mem_requestValues listed with before | ⟨rfl, values, few, value, found, number⟩
        · exact .inl before
        · exact .inr (.popped popped single item asks few found number)
      · rename_i own
        rcases mem_requestAll listed with before | ⟨rfl, value, given, number⟩
        · exact .inl before
        · exact .inr (.single (by simpa using own) single item asks
            (argument (Option.mem_toList.mp given)) number)
  · rename_i item variadic
    -- Several labels, each of which is an argument.
    rcases mem_requestAll listed with before | ⟨rfl, value, given, number⟩
    · exact .inl before
    · obtain ⟨arg, listed, whole⟩ := List.mem_filterMap.mp given
      exact .inr (.several variadic item (Arg.int?_eq_some.mp whole ▸ listed) number)
  · rename_i elements item single
    -- A tuple of registers, from the one that the argument names on.
    split at listed
    · rename_i first given
      rcases mem_harvestRegisters listed with
        before | ⟨rfl, place, element, there, type, values, few, value, found, number⟩
      · exact .inl before
      · rw [Nat.zero_add] at few
        exact .inr (.register rfl single item (argument given) there type few found number)
    · exact .inl listed
  · exact .inl listed

/-- What operands refer to is all that they add. -/
theorem mem_harvestOperands {pops : Bool} {operands : List (Param × List Arg)}
    (listed : (label, kind) ∈ (harvestOperands graph bound ref pops operands harvest).2.requests) :
    (label, kind) ∈ harvest.requests ∨ ∃ position operand, operands[position]? = some operand ∧
      OperandAsks graph bound ref pops (operands.length - (position + 1)) operand label kind := by
  -- What the first operand has added was there before the others are harvested.
  induction operands generalizing harvest with
  | nil => exact .inl listed
  | cons first rest ih =>
    rcases ih listed with before | ⟨position, operand, there, asks⟩
    · rcases mem_harvestOperand before with earlier | asks
      · exact .inl earlier
      · exact .inr ⟨0, first, rfl, asks⟩
    · refine .inr ⟨position + 1, operand, there, ?_⟩
      rwa [List.length_cons, Nat.add_sub_add_right]

/-- What code refers to is all that it adds. -/
theorem mem_harvestCode {instructions : List Instruction}
    (listed : (label, kind) ∈ (harvestCode graph bound ref instructions harvest).2.requests) :
    (label, kind) ∈ harvest.requests ∨ ∃ (place : Nat) (instruction : Instruction),
      instructions[place]? = some instruction ∧
        instruction.Asks graph bound { ref with index := ref.index + place } label kind := by
  -- The same for the first instruction, whose index is the one to start from.
  induction instructions generalizing ref harvest with
  | nil => exact .inl listed
  | cons first rest ih =>
    rcases ih listed with before | ⟨place, instruction, there, asks⟩
    · exact (mem_harvestOperands before).imp_right fun asks => ⟨0, first, rfl, asks⟩
    · rw [Nat.succ_add, ← Nat.add_succ] at asks
      exact .inr ⟨place + 1, instruction, there, asks⟩

/-- What segments refer to that were not resolved before is all that they add. -/
theorem mem_harvestSegments {analyzed : List Nat} {number : Nat} {code : List (Nat × CodeSegment)}
    (listed : (label, kind) ∈
      (harvestSegments graph bound analyzed number code harvest).2.requests) :
    (label, kind) ∈ harvest.requests ∨
      ∃ (place offset : Nat) (segment : CodeSegment) (index : Nat) (instruction : Instruction),
        code[place]? = some (offset, segment) ∧ offset ∉ analyzed ∧
          segment.instructions[index]? = some instruction ∧
          instruction.Asks graph bound ⟨number + place, index⟩ label kind := by
  induction code generalizing number harvest with
  | nil => exact .inl listed
  | cons entry rest ih =>
    obtain ⟨offset, segment⟩ := entry
    unfold harvestSegments at listed
    split at listed
    · -- A segment that was resolved before adds nothing, so that the request comes from the others.
      rcases ih listed with
        before | ⟨place, other, found, index, instruction, there, due, used, asks⟩
      · exact .inl before
      · rw [Nat.succ_add, ← Nat.add_succ] at asks
        exact .inr ⟨place + 1, other, found, index, instruction, there, due, used, asks⟩
    · -- Otherwise the request may also come from this segment.
      rename_i fresh
      rcases ih listed with
        before | ⟨place, other, found, index, instruction, there, due, used, asks⟩
      · rcases mem_harvestCode before with earlier | ⟨index, instruction, used, asks⟩
        · exact .inl earlier
        · rw [Nat.zero_add] at asks
          exact .inr ⟨0, offset, segment, index, instruction, rfl, by simpa using fresh, used, asks⟩
      · rw [Nat.succ_add, ← Nat.add_succ] at asks
        exact .inr ⟨place + 1, other, found, index, instruction, there, due, used, asks⟩

/-- Only code is resolved. -/
theorem mem_of_mem_harvestSegments {analyzed : List Nat} {number offset : Nat}
    {code : List (Nat × CodeSegment)}
    (resolved : offset ∈ (harvestSegments graph bound analyzed number code harvest).1) :
    ∃ segment, (offset, segment) ∈ code := by
  -- Offsets join one by one, each with the segment that was looked at.
  induction code generalizing number harvest with
  | nil => cases resolved
  | cons entry rest ih =>
    unfold harvestSegments at resolved
    split at resolved
    · obtain ⟨segment, listed⟩ := ih resolved
      exact ⟨segment, List.mem_cons_of_mem _ listed⟩
    · dsimp only at resolved
      split at resolved
      · rcases List.mem_cons.mp resolved with rfl | behind
        · exact ⟨entry.2, List.mem_cons_self⟩
        · obtain ⟨segment, listed⟩ := ih behind
          exact ⟨segment, List.mem_cons_of_mem _ listed⟩
      · obtain ⟨segment, listed⟩ := ih resolved
        exact ⟨segment, List.mem_cons_of_mem _ listed⟩

end Harvest

namespace Discovery

variable {state : Discovery} {bound offset : Nat}

/-- The code that has been discovered is that of the segments. -/
theorem mem_codeSegments {segment : CodeSegment} :
    (offset, segment) ∈ state.codeSegments ↔
      (offset, ⟨segment.labels, .code segment.instructions⟩) ∈ state.segments := by
  -- Data and texts are left out.
  unfold codeSegments
  rw [List.mem_filterMap]
  constructor
  · rintro ⟨⟨place, labels, content⟩, listed, made⟩
    cases content with
    | code instructions =>
      cases made
      exact listed
    | data bytes => cases made
    | text value stored => cases made
  · intro listed
    exact ⟨_, listed, rfl⟩

/-- A harvest requests all that the code refers to. -/
theorem Resolves.covers {label : Label} {kind : SegmentKind}
    (resolves : state.Resolves bound label kind) : (state.harvest bound).1.Covers label kind := by
  -- Segments are numbered from zero on.
  obtain ⟨number, offset, segment, index, instruction, listed, due, used, asks⟩ := resolves
  rw [← Nat.zero_add number] at asks
  exact Harvest.covers_harvestSegments listed due used asks

/-- A harvest requests nothing that the code does not refer to. -/
theorem resolves_of_mem_harvest {label : Label} {kind : SegmentKind}
    (listed : (label, kind) ∈ (state.harvest bound).1) : state.Resolves bound label kind := by
  -- There are no requests before the harvest.
  rcases Harvest.mem_harvestSegments listed with before | ⟨number, offset, segment, index,
    instruction, there, due, used, asks⟩
  · cases before
  · rw [Nat.zero_add] at asks
    exact ⟨number, offset, segment, index, instruction, there, due, used, asks⟩

/-- The code refers to what an argument names, unless it is resolved. -/
theorem resolves_of_names {labels : LabelSet} {instructions : List Instruction}
    {instruction : Instruction} {label : Label} {kind : SegmentKind}
    (listed : (offset, ⟨labels, .code instructions⟩) ∈ state.segments)
    (due : offset ∉ state.analyzed) (used : instruction ∈ instructions)
    (names : instruction.Names label kind) : state.Resolves bound label kind := by
  -- The segment has a number among those of code, and the instruction an index there.
  have found : (offset, (⟨labels, instructions⟩ : CodeSegment)) ∈ state.codeSegments :=
    mem_codeSegments.mpr listed
  obtain ⟨number, here⟩ := List.mem_iff_getElem?.mp found
  obtain ⟨index, there⟩ := List.mem_iff_getElem?.mp used
  exact ⟨number, offset, _, index, instruction, here, due, there, names.asks _ bound _⟩

/-- A harvest requests what code refers to that was not resolved before. -/
theorem covers_harvest {labels : LabelSet} {instructions : List Instruction}
    {instruction : Instruction} {label : Label} {kind : SegmentKind}
    (listed : (offset, ⟨labels, .code instructions⟩) ∈ state.segments)
    (due : offset ∉ state.analyzed) (used : instruction ∈ instructions)
    (names : instruction.Names label kind) : (state.harvest bound).1.Covers label kind :=
  (resolves_of_names listed due used names).covers

/-- A harvest resolves only code. -/
theorem mem_analyzed_harvest (resolved : offset ∈ (state.harvest bound).2.analyzed) :
    offset ∈ state.analyzed ∨
      ∃ labels instructions, (offset, ⟨labels, .code instructions⟩) ∈ state.segments := by
  -- What is noted as resolved was so before, or has just been gone through.
  rcases List.mem_append.mp resolved with now | before
  · obtain ⟨segment, listed⟩ := Harvest.mem_of_mem_harvestSegments now
    exact .inr ⟨segment.labels, segment.instructions, mem_codeSegments.mp listed⟩
  · exact .inl before

end Discovery

end QuestScript
