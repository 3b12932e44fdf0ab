import QuestScript.Proofs.Flow.Execution
import QuestScript.Proofs.Flow.Links

/-! The register analysis finds every value that a register can have. -/

namespace QuestScript

/-- Whatever a search yields, however far it has come, is like this. -/
def Yields {α : Type} (search : Searching α) (like : α → Prop) : Prop :=
  ∀ state, like (search.run state).1

namespace Yields

variable {α β : Type} {first : Searching α} {second : α → Searching β}
  {like : α → Prop} {alike : β → Prop}

/-- A value is yielded as it is. -/
theorem pure {value : α} (holds : like value) : Yields (Pure.pure value) like := fun _ => holds

/-- A search that goes on with what another yields. -/
theorem bind (front : Yields first like)
    (back : ∀ value, like value → Yields (second value) alike) : Yields (first >>= second) alike :=
  fun state => back _ (front state) _

/-- What is known of every value that a search yields. -/
theorem imp {weaker : α → Prop} (yields : Yields first like)
    (implied : ∀ value, like value → weaker value) : Yields first weaker :=
  fun state => implied _ (yields state)

/-- Nothing has to be known of a value to go on with. -/
theorem bind_any (back : ∀ value, Yields (second value) alike) : Yields (first >>= second) alike :=
  fun _ => back _ _

end Yields

/-- A set in canonical form that has a value. -/
def ValueSet.Encloses (set : ValueSet) (value : Int32) : Prop :=
  set.Canonical ∧ set.contains value = true

/-- Every value is enclosed by all of them. -/
theorem ValueSet.encloses_all (value : Int32) : all.Encloses value := ⟨canonical_all, contains_all⟩

namespace Search

variable {find : Nat → Searching ValueSet} {path numbers : List Nat} {found : ValueSet}
  {value : Int32} {number : Nat}

/-- A union of canonical sets is canonical. -/
theorem canonical_unionOver (canonical : found.Canonical)
    (finds : ∀ number ∈ numbers, Yields (find number) ValueSet.Canonical) :
    Yields (unionOver find path numbers found) ValueSet.Canonical := by
  induction numbers generalizing found with
  | nil =>
    -- Nothing is known where no value has been found.
    unfold unionOver
    split
    · exact .pure ValueSet.canonical_all
    · exact .pure canonical
  | cons number rest ih =>
    unfold unionOver
    -- The path comes back to the block, or what is found there joins the union.
    split
    · exact .pure ValueSet.canonical_all
    · refine (finds number List.mem_cons_self).bind fun here more => ?_
      exact ih (canonical.union more)
        fun other listed => finds other (List.mem_cons_of_mem _ listed)

/-- What has been found stays in the union. -/
theorem contains_unionOver (member : found.contains value = true) :
    Yields (unionOver find path numbers found) (·.contains value = true) := by
  -- The union only grows, unless it is given up for all values.
  induction numbers generalizing found with
  | nil =>
    unfold unionOver
    rw [ValueSet.isEmpty_of_contains member]
    exact .pure member
  | cons number rest ih =>
    unfold unionOver
    split
    · exact .pure ValueSet.contains_all
    · exact .bind_any fun here => ih (ValueSet.contains_union.mpr (.inl member))

/-- What is found for one of the blocks is in the union. -/
theorem contains_unionOver_of_mem (listed : number ∈ numbers)
    (finds : Yields (find number) (·.contains value = true)) :
    Yields (unionOver find path numbers found) (·.contains value = true) := by
  induction numbers generalizing found with
  | nil => cases listed
  | cons first rest ih =>
    unfold unionOver
    split
    · exact .pure ValueSet.contains_all
    · -- The block comes next, or is still to come.
      rcases List.mem_cons.mp listed with rfl | behind
      · refine finds.bind fun here member => ?_
        exact contains_unionOver (ValueSet.contains_union.mpr (.inr member))
      · exact .bind_any fun here => ih behind

end Search

/-- An effect from which canonical sets come: it gives such a set, and does not multiply. -/
def RegisterEffect.Tame : RegisterEffect → Prop
  | .constant values => values.Canonical
  | .multiply _ => False
  | _ => True

namespace Instruction

variable {instruction : Instruction} {effect : RegisterEffect} {number : Int32}

/-- The effect of a value is tame if it is so for all values. -/
theorem tame_effectOf {index : Nat} {make : Int32 → RegisterEffect}
    (tame : ∀ value, (make value).Tame) : (instruction.effectOf index make).Tame := by
  -- A value that is not given leaves any, which is tame.
  unfold effectOf
  split
  · exact tame _
  · exact trivial

/-- Only products are not tame. -/
theorem tame_of_targetEffect? (plain : instruction.opcode.code ≠ Code.muli)
    (does : instruction.targetEffect? = some effect) : effect.Tame := by
  obtain ⟨target, listed, same, rfl⟩ := mem_targetEffects does
  rw [← same] at plain
  revert plain
  -- The codes stand in the order of the table.
  simp only [targetEffects, List.mem_cons, List.not_mem_nil, or_false] at listed
  rcases listed with rfl | rfl | rfl | rfl | rfl | rfl | rfl | rfl | rfl | rfl | rfl | rfl | rfl |
    rfl | rfl
  all_goals intro plain
  · exact tame_effectOf fun _ => trivial
  · exact tame_effectOf fun value => ValueSet.canonical_of value
  · exact tame_effectOf fun value => ValueSet.canonical_of value
  · exact tame_effectOf fun value => ValueSet.canonical_of value
  · exact tame_effectOf fun value => ValueSet.canonical_of value
  · exact ValueSet.canonical_of 1
  · exact ValueSet.canonical_of 0
  · exact trivial
  -- Sums and differences, products, and quotients.
  · exact tame_effectOf fun _ => trivial
  · exact tame_effectOf fun _ => trivial
  · exact absurd rfl plain
  · exact tame_effectOf fun _ => trivial
  · exact ValueSet.canonical_interval 0 1
  · exact ValueSet.canonical_interval 0 2
  · exact ValueSet.canonical_interval 0 3

/-- What is declared is not known, which is tame. -/
theorem tame_of_declaredEffect? (does : instruction.declaredEffect? number = some effect) :
    effect.Tame := by
  unfold declaredEffect? at does
  -- The only effect is the unknown value.
  split at does <;> cases does
  exact trivial

/-- An instruction that does not multiply has a tame effect. -/
theorem tame_of_effectOn? (plain : instruction.opcode.code ≠ Code.muli)
    (does : instruction.effectOn? number = some effect) : effect.Tame := by
  simp only [effectOn?] at does
  -- The codes stand in the order of the definition, and those without a case of their own are last.
  repeat' split at does
  · cases does
    exact trivial
  · cases does
    exact trivial
  · cases does
  · cases does
    exact trivial
  · cases does
  · cases does
    exact tame_effectOf fun _ => trivial
  · exact tame_of_declaredEffect? does
  · -- What is done to the register itself comes before what is declared about it.
    rcases Option.or_eq_some_iff.mp does with target | ⟨-, declared⟩
    · exact tame_of_targetEffect? plain target
    · exact tame_of_declaredEffect? declared
  · exact tame_of_declaredEffect? does

end Instruction

/-- Instructions none of which multiplies. -/
def Unmultiplied (instructions : List Instruction) : Prop :=
  ∀ instruction ∈ instructions, instruction.opcode.code ≠ Code.muli

/-- Where the value of a call's argument comes from, if control has gone from `start` through the
instructions before the call: it was given, or a register held it before the arguments began. -/
def Supplies {σ : Type} (step : Instruction → σ → σ → Prop) (registers : σ → Registers) (start : σ)
    (value : Int32) : Pushed × List Instruction → Prop
  | (.unknown, _) => True
  | (.value given, _) => value = given
  | (.register source, beforeStart) => ∃ (state : σ) (register : Fin 256),
      Runs step beforeStart.reverse start state ∧ source = registerNumber register ∧
        value = registers state register

/-- Steps that the analysis keeps track of in code of some kind, given in reverse. -/
structure Tracks {σ : Type} (step : Instruction → σ → σ → Prop) (registers : σ → Registers)
    (fit : List Instruction → Prop) : Prop where
  /-- The instructions before one of such code are such code. -/
  suffix : ∀ {before instructions : List Instruction}, before <:+ instructions →
    fit instructions → fit before
  /-- Such code does not multiply. -/
  plain : ∀ {instructions : List Instruction}, fit instructions → Unmultiplied instructions
  /-- An instruction does to a register what its effect on that register says. -/
  explains : ∀ {instruction : Instruction} {before after : σ}, step instruction before after →
    ∀ register, instruction.effectOn? (registerNumber register) ≠ some .callArgument →
      Instruction.Explains (registers before) register (registers after register)
        (instruction.effectOn? (registerNumber register))
  /-- A call stores its arguments. -/
  supplies : ∀ {call : Instruction} {before : List Instruction} {start middle after : σ},
    fit (call :: before) → Runs step before.reverse start middle → step call middle after →
      ∀ register, call.effectOn? (registerNumber register) = some .callArgument →
        Supplies step registers start (registers after register)
          (callArgument before (registerNumber register))

/-- The analysis keeps track of instructions that do nothing else to the registers than what they
do by themselves. -/
theorem Tracks.of_executes {σ : Type} {step : Instruction → σ → σ → Prop}
    {registers : σ → Registers}
    (executes : ∀ {instruction : Instruction} {before after : σ}, step instruction before after →
      instruction.Executes (registers before) (registers after)) :
    Tracks step registers Unmultiplied where
  suffix := fun behind plain instruction listed => plain instruction (behind.mem listed)
  plain := fun plain => plain
  explains := fun happens register _ => (executes happens).explains register
  supplies := by
    -- No call with arguments is executed by itself.
    intro call before start middle after _ _ happens register does
    have explained := (executes happens).explains register
    rw [does] at explained
    exact explained.elim

section LastValue

variable {find : List Instruction → Int32 → Searching ValueSet} {onward : Searching ValueSet}
  {instructions : List Instruction}

/-- The instructions before the start of a call's arguments come before the call. -/
theorem callArgument_suffix (before : List Instruction) (register : Int32) :
    (callArgument before register).2 <:+ before := by
  unfold callArgument
  dsimp only
  -- The instructions are dropped up to the start, and what was before it is left.
  split
  · exact List.nil_suffix
  · rename_i start beforeStart dropped
    have behind : beforeStart <:+ before := by
      have kept := List.dropWhile_suffix (l := before)
        fun instruction => !(instruction.opcode.code == Code.vaStart)
      rw [dropped] at kept
      exact (List.suffix_cons start beforeStart).trans kept
    split <;> exact behind

/-- The last value of a register is canonical if all that it is made of is. -/
theorem canonical_lastValue (register : Int32)
    (finds : ∀ before source, Unmultiplied before → Yields (find before source) ValueSet.Canonical)
    (goesOn : Yields onward ValueSet.Canonical) (plain : Unmultiplied instructions) :
    Yields (lastValue find onward register instructions) ValueSet.Canonical := by
  induction instructions with
  | nil => exact goesOn
  | cons instruction before ih =>
    have earlier : Unmultiplied before := fun other listed =>
      plain other (List.mem_cons_of_mem _ listed)
    unfold lastValue
    cases does : instruction.effectOn? register with
    | none => exact ih earlier
    | some effect =>
      -- Without a product every effect keeps canonical sets canonical.
      have tame := Instruction.tame_of_effectOn? (plain instruction List.mem_cons_self) does
      cases effect with
      | unknown => exact .pure ValueSet.canonical_all
      | constant values => exact .pure tame
      | copy source => exact finds before source earlier
      | flip =>
        exact (finds before register earlier).bind fun set _ =>
          .pure (ValueSet.canonical_flipped set)
      | add number =>
        exact (finds before register earlier).bind fun set canonical => .pure (canonical.add number)
      | subtract number =>
        exact (finds before register earlier).bind fun set canonical => .pure (canonical.sub number)
      | multiply number => exact tame.elim
      | divide number =>
        exact (finds before register earlier).bind fun set _ => .pure (ValueSet.canonical_div set _)
      | random bounds =>
        refine (finds before bounds earlier).bind fun lower _ => ?_
        refine (finds before (bounds + 1) earlier).bind fun upper _ => ?_
        exact .pure (ValueSet.canonical_randomBetween lower upper)
      | callArgument =>
        -- An argument of a call that has no value is looked for further back.
        have started : Unmultiplied (callArgument before register).2 :=
          fun other listed => earlier other ((callArgument_suffix before register).mem listed)
        generalize callArgument before register = argument at started ⊢
        obtain ⟨pushed, beforeStart⟩ := argument
        cases pushed with
        | unknown => exact .pure ValueSet.canonical_all
        | value value => exact .pure (ValueSet.canonical_of value)
        | register source =>
          refine (finds beforeStart source started).bind fun set canonical => ?_
          split
          · exact ih earlier
          · exact .pure canonical

/-- The last value of a register is the one that it has after the instructions, if what is found of
the registers before each of them is so, and what is found before all of them. -/
theorem Tracks.encloses_lastValue {σ : Type} {step : Instruction → σ → σ → Prop}
    {registers : σ → Registers} {fit : List Instruction → Prop} (tracks : Tracks step registers fit)
    {start after : σ} (register : Fin 256)
    (finds : ∀ before source middle, before <:+ instructions →
      Runs step before.reverse start middle →
      Yields (find before (registerNumber source)) (·.Encloses (registers middle source)))
    (goesOn : Yields onward (·.Encloses (registers start register))) (fits : fit instructions)
    (runs : Runs step instructions.reverse start after) :
    Yields (lastValue find onward (registerNumber register) instructions)
      (·.Encloses (registers after register)) := by
  -- The instructions are gone through backwards, and the registers before the last of them explain
  -- what it has made of the register.
  induction instructions generalizing after with
  | nil =>
    cases runs
    exact goesOn
  | cons instruction before ih =>
    have behind : before <:+ instruction :: before := List.suffix_cons instruction before
    rw [List.reverse_cons] at runs
    obtain ⟨middle, front, executes⟩ := runs.of_concat
    have explained := tracks.explains executes register
    have found := finds before register middle behind front
    unfold lastValue
    cases does : instruction.effectOn? (registerNumber register) with
    | none =>
      -- The instruction leaves the register alone.
      rw [does] at explained
      rw [show registers after register = registers middle register from explained (by simp)]
      exact ih
        (fun earlier source middle inside => finds earlier source middle (inside.trans behind))
        (tracks.suffix behind fits) front
    | some effect =>
      rw [does] at explained
      cases effect with
      | unknown => exact .pure (ValueSet.encloses_all _)
      | constant values => exact .pure (explained (by simp))
      | copy source =>
        obtain ⟨other, rfl, same⟩ := explained (by simp)
        rw [same]
        exact finds before other middle behind front
      | flip =>
        refine found.bind fun set enclosed => .pure ⟨ValueSet.canonical_flipped set, ?_⟩
        rw [show registers after register = _ from explained (by simp)]
        exact ValueSet.contains_flipped enclosed.2
      | add number =>
        refine found.bind fun set enclosed => .pure ⟨enclosed.1.add number, ?_⟩
        exact enclosed.1.contains_add.mpr
          ⟨registers middle register, enclosed.2, explained (by simp)⟩
      | subtract number =>
        refine found.bind fun set enclosed => .pure ⟨enclosed.1.sub number, ?_⟩
        exact enclosed.1.contains_sub.mpr
          ⟨registers middle register, enclosed.2, explained (by simp)⟩
      | divide number =>
        refine found.bind fun set enclosed => .pure ⟨ValueSet.canonical_div set number, ?_⟩
        -- By zero the quotient may be anything.
        by_cases zero : number = 0
        · subst zero
          exact ValueSet.contains_div_zero _
        · rw [show registers after register = _ from explained (by simp) zero]
          exact ValueSet.contains_div enclosed.2
      | random bounds =>
        -- The upper bound is in the register behind that of the lower one.
        obtain ⟨low, high, rfl, next, above, below⟩ := explained (by simp)
        refine (finds before low middle behind front).bind fun lower least => ?_
        rw [registerNumber_next next]
        refine (finds before high middle behind front).bind fun upper greatest => ?_
        exact .pure ⟨ValueSet.canonical_randomBetween lower upper,
          ValueSet.contains_randomBetween least.1 greatest.1 least.2 greatest.2 above below⟩
      -- Products are not executed.
      | multiply number => exact (explained (by simp)).elim
      | callArgument =>
        have supplied := tracks.supplies fits front executes register does
        have inside := callArgument_suffix before (registerNumber register)
        generalize callArgument before (registerNumber register) = argument at supplied inside ⊢
        obtain ⟨pushed, beforeStart⟩ := argument
        cases pushed with
        | unknown => exact .pure (ValueSet.encloses_all _)
        | value value =>
          rw [show registers after register = value from supplied]
          exact .pure ⟨ValueSet.canonical_of value, by simp⟩
        | register source =>
          -- The register is looked for before the arguments began, and has a value there.
          obtain ⟨state, other, ran, rfl, same⟩ := supplied
          have earlier := finds beforeStart other state (inside.trans behind) ran
          refine earlier.bind fun set enclosed => ?_
          rw [ValueSet.isEmpty_of_contains enclosed.2, same]
          exact .pure enclosed

end LastValue

namespace FlowGraph

variable {graph : FlowGraph}

/-- No code of a graph multiplies. -/
def Productless (graph : FlowGraph) : Prop :=
  ∀ segment ∈ graph.segments, Unmultiplied segment.instructions

/-- Neither do the instructions at the start of its blocks. -/
theorem Productless.instructionsBefore (productless : graph.Productless) (number stop : Nat) :
    Unmultiplied (graph.instructionsBefore number stop) := by
  intro instruction listed
  -- They are instructions of a segment, none of which multiplies.
  obtain ⟨segment, found, inside⟩ := mem_of_mem_instructionsBefore listed
  exact productless segment found instruction inside

/-- Nor do all the instructions of a block. -/
theorem Productless.instructionsOf (productless : graph.Productless) (number : Nat) :
    Unmultiplied (graph.instructionsOf number) := by
  unfold FlowGraph.instructionsOf
  -- An unknown block has none.
  split
  · intro instruction listed
    cases listed
  · exact productless.instructionsBefore number _

end FlowGraph

section Search

variable {graph : FlowGraph}

/-- The search for a register yields canonical sets. -/
theorem canonical_registerBefore
    (productless : ∀ number, Unmultiplied (graph.instructionsOf number))
    (levels : Nat) (path : List Nat) (block : Nat) {instructions : List Instruction}
    (plain : Unmultiplied instructions) (register : Int32) :
    Yields (registerBefore graph levels path block instructions register) ValueSet.Canonical := by
  induction levels generalizing path block instructions register with
  | zero => exact .pure ValueSet.canonical_all
  | succ levels ih =>
    unfold registerBefore
    -- A search that is not allowed to go on finds everything.
    refine .bind_any fun allowed => ?_
    split
    · split
      · -- The instructions are looked through, with searches for sources one level down.
        refine canonical_lastValue register (fun before source earlier => ih _ _ earlier _) ?_ plain
        -- Beyond the start of the block there is the union over the blocks that lead to it.
        refine Search.canonical_unionOver ValueSet.canonical_empty fun number _ => ?_
        exact ih _ _ (productless number) _
      · exact .pure ValueSet.canonical_all
    · exact .pure ValueSet.canonical_all

/-- The search for a register encloses the value it has once control has arrived at a block and
gone through some of its instructions. -/
theorem Tracks.encloses_registerBefore {σ : Type} {step : Instruction → σ → σ → Prop}
    {registers : σ → Registers} {fit : List Instruction → Prop} (tracks : Tracks step registers fit)
    (mirrored : graph.Mirrored) (fits : ∀ number, fit (graph.instructionsOf number))
    (levels : Nat) (path : List Nat) {block : Nat} {instructions : List Instruction}
    {start after : σ} (arrived : graph.Arrives step block start) (fitting : fit instructions)
    (runs : Runs step instructions.reverse start after) (register : Fin 256) :
    Yields (registerBefore graph levels path block instructions (registerNumber register))
      (·.Encloses (registers after register)) := by
  -- Each level looks back through a part of a block, or from its start into the blocks before it.
  induction levels generalizing path block instructions start after register with
  | zero => exact .pure (ValueSet.encloses_all _)
  | succ levels ih =>
    unfold registerBefore
    refine .bind_any fun allowed => ?_
    split
    · split
      · refine tracks.encloses_lastValue register ?_ ?_ fitting runs
        · intro before source middle inside front
          exact ih path arrived (tracks.suffix inside fitting) front source
        · intro state
          refine ⟨Search.canonical_unionOver ValueSet.canonical_empty (fun number _ =>
            canonical_registerBefore (fun other => tracks.plain (fits other)) levels _ number
              (tracks.plain (fits number)) _) state, ?_⟩
          cases arrived with
          | start _ known entry =>
            -- Where nothing comes from, nothing is known.
            rw [entry]
            exact ValueSet.contains_all
          | @follow previous _ before _ earlier gone edge =>
            have onward := ih (block :: path) earlier (fits previous) gone register
            exact Search.contains_unionOver_of_mem ((mirrored _ _).mpr edge)
              (onward.imp fun set enclosed => enclosed.2) state
      · exact .pure (ValueSet.encloses_all _)
    · exact .pure (ValueSet.encloses_all _)

/-- The instructions before one of a block come first in the block. -/
theorem instructionsBefore_suffix {segments : List CodeSegment} {block : Nat} {ref : InstructionRef}
    (place : (FlowGraph.build segments).blockOf? ref = some block) :
    (FlowGraph.build segments).instructionsBefore block ref.index <:+
      (FlowGraph.build segments).instructionsOf block := by
  obtain ⟨own, found, contained⟩ := FlowGraph.blockOf?_build.mp place
  obtain ⟨-, -, before⟩ := Block.contains_iff.mp contained
  unfold FlowGraph.instructionsOf FlowGraph.instructionsBefore
  simp only [found]
  split
  · exact List.suffix_refl _
  · -- Both parts begin where the block does, and the longer one ends later.
    rw [List.reverse_suffix, List.drop_take, List.drop_take]
    exact List.take_prefix_take_left (by omega)

/-- The values that are found for a register before an instruction have among them the one that it
holds there, if the analysis keeps track of the steps. -/
theorem Tracks.contains_registerValue {σ : Type} {step : Instruction → σ → σ → Prop}
    {registers : σ → Registers} {fit : List Instruction → Prop} (tracks : Tracks step registers fit)
    {segments : List CodeSegment}
    (fits : ∀ number, fit ((FlowGraph.build segments).instructionsOf number)) {block : Nat}
    {ref : InstructionRef} {start after : σ}
    (arrived : (FlowGraph.build segments).Arrives step block start)
    (place : (FlowGraph.build segments).blockOf? ref = some block)
    (runs : Runs step ((FlowGraph.build segments).codeBefore block ref.index) start after)
    (register : Fin 256) :
    ((FlowGraph.build segments).registerValue ref (registerNumber register)).1.contains
      (registers after register) = true := by
  -- The instructions before the place end those of the block, so the analysis keeps track of them.
  have fitting := tracks.suffix (instructionsBefore_suffix place) (fits block)
  have found := tracks.encloses_registerBefore FlowGraph.mirrored_build fits (maxVisits + 1) []
    arrived fitting runs register
  unfold FlowGraph.registerValue
  rw [place]
  exact (found {}).2

end Search

/-- The values that are found for a register before an instruction have among them the one that it
holds there, along whatever way control has come, and whatever the registers held when it began. -/
theorem FlowGraph.registerValue_contains {segments : List CodeSegment}
    (productless : ∀ segment ∈ segments, ∀ instruction ∈ segment.instructions,
      instruction.opcode.code ≠ Code.muli)
    {block : Nat} {ref : InstructionRef} {before after : Registers}
    (arrived : (build segments).Arrives Instruction.Executes block before)
    (place : (build segments).blockOf? ref = some block)
    (runs : Runs Instruction.Executes ((build segments).codeBefore block ref.index) before after)
    (register : Fin 256) :
    ((build segments).registerValue ref (registerNumber register)).1.contains (after register) =
      true := by
  -- Executed instructions change registers only, which is all that is kept track of.
  have plain : (build segments).Productless := productless
  have tracks : Tracks Instruction.Executes (fun registers => registers) Unmultiplied :=
    .of_executes fun executes => executes
  exact tracks.contains_registerValue plain.instructionsOf arrived place runs register

/-- Code that draws a number and then a random one above it, and skips over some code if that is
five, to add ten to it. -/
def drawCode : List CodeSegment :=
  [⟨[0], [{ opcode := OpcodeTable.standard.get Code.getDifflvl, args := [.int 1] },
      { opcode := OpcodeTable.standard.get Code.leti, args := [.int 2, .int 7] },
      { opcode := OpcodeTable.standard.get Code.getRandom, args := [.int 1, .int 3] },
      { opcode := OpcodeTable.standard.get (Code.jmpE + 1), args := [.int 3, .int 5, .int 2] }]⟩,
    ⟨[1], [{ opcode := OpcodeTable.standard.get Code.leti, args := [.int 3, .int 40] }]⟩,
    ⟨[2], [{ opcode := OpcodeTable.standard.get Code.addi, args := [.int 3, .int 10] },
      { opcode := OpcodeTable.standard.get Code.ret }]⟩]

/-- The registers when two and five have been drawn. -/
def drawnRegisters : Registers :=
  Registers.set (Registers.set (Registers.set (fun _ => 0) 1 2) 2 7) 3 5

/-- Control skips over the code in between. -/
theorem arrives_drawCode :
    (FlowGraph.build drawCode).Arrives Instruction.Executes 2 drawnRegisters := by
  have edge : 2 ∈ (FlowGraph.build drawCode).successors 0 := by decide
  -- Two is drawn, the other bound is set, and five is drawn at random from between them.
  refine .follow (.start (fun _ => 0) (by decide) rfl) ?_ edge
  refine .next (@Instruction.Executes.draw _ _ 1 2 2 (by decide) rfl (by decide) (by decide)) ?_
  refine .next (@Instruction.Executes.store _ _ 2 7 (by decide) rfl rfl) ?_
  refine .next (@Instruction.Executes.random _ _ 1 2 3 5 rfl rfl rfl rfl (by decide) (by decide)) ?_
  exact .next (.declared (by decide) fun _ _ => rfl) (.done drawnRegisters)

/-- The sum is among the values that are found, next to those of the other way. -/
theorem registerValue_contains_drawCode :
    (∀ segment ∈ drawCode, ∀ instruction ∈ segment.instructions,
        instruction.opcode.code ≠ Code.muli) ∧
      (FlowGraph.build drawCode).Arrives Instruction.Executes 2 drawnRegisters ∧
      (FlowGraph.build drawCode).blockOf? ⟨2, 1⟩ = some 2 ∧
      Runs Instruction.Executes ((FlowGraph.build drawCode).codeBefore 2 1) drawnRegisters
        (drawnRegisters.set 3 15) ∧
      ((FlowGraph.build drawCode).registerValue ⟨2, 1⟩ (registerNumber 3)).1.contains 15 =
        true := by
  have productless : ∀ segment ∈ drawCode, ∀ instruction ∈ segment.instructions,
      instruction.opcode.code ≠ Code.muli := by decide
  -- One instruction is executed in the block itself, which adds ten to five.
  have sum : drawnRegisters 3 + 10 = 15 := by decide
  have runs : Runs Instruction.Executes ((FlowGraph.build drawCode).codeBefore 2 1) drawnRegisters
      (drawnRegisters.set 3 15) := by
    rw [← sum]
    exact .next (@Instruction.Executes.add _ _ 3 10 rfl rfl rfl) (.done _)
  have place : (FlowGraph.build drawCode).blockOf? ⟨2, 1⟩ = some 2 := rfl
  have found := FlowGraph.registerValue_contains productless arrives_drawCode place runs 3
  rw [Registers.set_self] at found
  exact ⟨productless, arrives_drawCode, place, runs, found⟩

end QuestScript
