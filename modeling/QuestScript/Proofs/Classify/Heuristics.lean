import QuestScript.Proofs.Classify
import QuestScript.Proofs.Discovery.Harvest

/-! What instructions look like code: the heuristics in terms of positions and counts.

The instructions are scanned once, with a tally. After each of them the tally holds what counting in
all instructions so far gives, so that a scan ends at the first `nop` beyond a limit, and otherwise
with the counts that the ratios are made of. -/

namespace QuestScript

/-- The arguments for a parameter at a position: all from there on if it is variadic, and else the
one there. -/
def Param.argsAt (param : Param) (args : List Arg) (position : Nat) : List Arg :=
  if param.variadic then args.drop position else args[position]?.toList

/-- All arguments for label parameters, variadic or not. -/
def labelReferences (instructions : List Instruction) : List Arg :=
  instructions.flatMap fun instruction => instruction.opcode.params.zipIdx.flatMap
    fun (param, position) => if param.isLabel then param.argsAt instruction.args position else []

/-- An argument is a whole number, and that is a label with a place. -/
def Arg.Registered (index : LabelIndex) (arg : Arg) : Prop :=
  ∃ value label, arg = .int value ∧ value.toInt = ((label : Nat) : Int) ∧
    index.contains label = true

/-- The `nop` instructions up to a position, with the instruction there. -/
def nopsUpTo (instructions : List Instruction) (position : Nat) : Nat :=
  (instructions.take (position + 1)).countP Instruction.isNop

/-- The length of the run of `nop` instructions that ends at a position. -/
def nopRunAt (instructions : List Instruction) (position : Nat) : Nat :=
  ((instructions.take (position + 1)).reverse.takeWhile Instruction.isNop).length

/-- The instruction at a position pops, and there is none right before it that pushes. -/
def popsUnpushed (instructions : List Instruction) (position : Nat) : Bool :=
  instructions[position]?.any (·.opcode.pops) &&
    !(position != 0 && instructions[position - 1]?.any (·.opcode.pushes))

/-- There is a `nop` at a position, and with it more in all or in a row than a limit allows. -/
@[mk_iff]
structure ExcessAt (thresholds : Thresholds) (instructions : List Instruction) (position : Nat) :
    Prop where
  nop : ∃ instruction, instructions[position]? = some instruction ∧ instruction.isNop = true
  beyond : thresholds.maxTotalNops < nopsUpTo instructions position ∨
    thresholds.maxSequentialNops < nopRunAt instructions position

/-- The first `nop` beyond a limit is at a position. -/
def FirstExcessAt (thresholds : Thresholds) (instructions : List Instruction) (position : Nat) :
    Prop :=
  ExcessAt thresholds instructions position ∧
    ∀ earlier < position, ¬ExcessAt thresholds instructions earlier

/-- Why the `nop` at a position is rejected: too many in all come before too many in a row. -/
def excessRejection (thresholds : Thresholds) (instructions : List Instruction) (position : Nat) :
    Rejection :=
  if thresholds.maxTotalNops < nopsUpTo instructions position then
    .tooManyNops thresholds.maxTotalNops
  else .tooManySequentialNops thresholds.maxSequentialNops

/-- A ratio, its limit, and how it is rejected beyond that. -/
structure RatioCheck where
  ratio : Double
  limit : Double
  reject : Double → Rejection

/-- Whether a ratio is beyond its limit. -/
def RatioCheck.exceeded (check : RatioCheck) : Bool := check.limit.lt check.ratio

/-- A limit is no lower than another one; what is no number is only as high as itself. -/
def Double.AtMost (low high : Double) : Prop := low = high ∨ low.le high = true

/-- No limit is lower than another one for the same. -/
structure Thresholds.AtMost (low high : Thresholds) : Prop where
  totalNops : low.maxTotalNops ≤ high.maxTotalNops
  sequentialNops : low.maxSequentialNops ≤ high.maxSequentialNops
  unknownOpcodes : low.maxUnknownOpcodeRatio.AtMost high.maxUnknownOpcodeRatio
  popWithoutPush : low.maxPopWithoutPushRatio.AtMost high.maxPopWithoutPushRatio
  unknownLabels : low.maxUnknownLabelRatio.AtMost high.maxUnknownLabelRatio

section

variable {index : LabelIndex} {thresholds : Thresholds}

/-- Whether an argument is a label with a place is decided by looking it up. -/
theorem Arg.isKnownLabel_iff {arg : Arg} :
    arg.isKnownLabel index = true ↔ arg.Registered index := by
  -- Both sides say the same of the argument's value, in another order.
  simp only [isKnownLabel, Option.any_eq_true, Option.bind_eq_some_iff, Arg.int?_eq_some,
    labelOf?_eq_some, Registered]
  constructor
  · rintro ⟨label, ⟨value, given, number⟩, found⟩
    exact ⟨value, label, given, number, found⟩
  · rintro ⟨value, label, given, number, found⟩
    exact ⟨label, ⟨value, given, number⟩, found⟩

instance : DecidablePred (Arg.Registered index) := fun _ => decidable_of_iff _ Arg.isKnownLabel_iff

/-- The ratios of instructions in the order in which they are checked. -/
def ratioChecks (index : LabelIndex) (thresholds : Thresholds) (instructions : List Instruction) :
    List RatioCheck :=
  let labels := labelReferences instructions
  let positions := List.range instructions.length
  [⟨partOf (labels.countP fun arg => ¬arg.Registered index) labels.length,
      thresholds.maxUnknownLabelRatio, .unknownLabels⟩,
    ⟨partOf (positions.countP (popsUnpushed instructions)) (instructions.countP (·.opcode.pops)),
      thresholds.maxPopWithoutPushRatio, .popWithoutPush⟩,
    ⟨partOf (instructions.countP fun instruction => !instruction.opcode.known) instructions.length,
      thresholds.maxUnknownOpcodeRatio, .unknownOpcodes⟩]

/-- What a tally of instructions holds. -/
def Tally.of (index : LabelIndex) (instructions : List Instruction) : Tally where
  previous := instructions.getLast?.map (·.opcode.stack)
  nops := instructions.countP Instruction.isNop
  nopRun := (instructions.reverse.takeWhile Instruction.isNop).length
  unknownOpcodes := instructions.countP fun instruction => !instruction.opcode.known
  pops := instructions.countP (·.opcode.pops)
  popsWithoutPush := (List.range instructions.length).countP (popsUnpushed instructions)
  labels := (labelReferences instructions).length
  unknownLabels := (labelReferences instructions).countP fun arg => ¬arg.Registered index

/-- Operands are parameters with the arguments at their positions. -/
theorem operandsOf_eq_map (params : List Param) (args : List Arg) (first : Nat) :
    operandsOf params (args.drop first) =
      (params.zipIdx first).map fun (param, position) => (param, param.argsAt args position) := by
  -- The next parameter starts one argument later, whatever this one takes.
  induction params generalizing first with
  | nil => rfl
  | cons param params ih =>
    rw [operandsOf, List.drop_drop, ih, List.zipIdx_cons, List.map_cons, List.take_one,
      List.head?_drop]
    rfl

/-- The label arguments of an instruction are those for its label parameters. -/
theorem labelReferences_singleton (instruction : Instruction) :
    labelReferences [instruction] = instruction.labelArgs := by
  have operands := operandsOf_eq_map instruction.opcode.params instruction.args 0
  rw [List.drop_zero] at operands
  simp only [Instruction.labelArgs, Instruction.operands, operands, labelReferences,
    List.flatMap_cons, List.flatMap_nil, List.append_nil, List.filter_map, List.flatMap_map]
  -- Choosing parameters and leaving out what the others have come to the same.
  induction instruction.opcode.params.zipIdx with
  | nil => rfl
  | cons entry entries ih =>
    obtain ⟨param, position⟩ := entry
    simp only [List.filter_cons, Function.comp_apply, List.flatMap_cons]
    split <;> simp [ih]

/-- One more instruction adds its label arguments. -/
theorem labelReferences_concat (front : List Instruction) (instruction : Instruction) :
    labelReferences (front ++ [instruction]) = labelReferences front ++ instruction.labelArgs := by
  rw [← labelReferences_singleton]
  exact List.flatMap_append

/-- Whether the last instruction pops without a push depends on it and the one before it. -/
theorem popsUnpushed_concat (front : List Instruction) (instruction : Instruction) :
    popsUnpushed (front ++ [instruction]) front.length =
      (instruction.opcode.pops && front.getLast?.map (·.opcode.stack) != some .push) := by
  -- There is one before it unless it is the first of all.
  rcases List.eq_nil_or_concat front with rfl | ⟨before, last, rfl⟩
  · simp [popsUnpushed]
  · simp [popsUnpushed, Opcode.pushes, bne]

/-- One more instruction does not change which of the others pop without a push. -/
theorem countP_popsUnpushed_concat (front : List Instruction) (instruction : Instruction) :
    (List.range (front.length + 1)).countP (popsUnpushed (front ++ [instruction])) =
      (List.range front.length).countP (popsUnpushed front) +
        if instruction.opcode.pops && front.getLast?.map (·.opcode.stack) != some .push then 1
        else 0 := by
  rw [List.range_succ, List.countP_append, List.countP_singleton, popsUnpushed_concat]
  congr 1
  -- The instructions at and right before an earlier position are the same as without the last one.
  refine List.countP_congr fun position inside => ?_
  rw [List.mem_range] at inside
  rw [popsUnpushed, popsUnpushed, List.getElem?_append_left inside,
    List.getElem?_append_left (by omega)]

/-- A `nop` makes the run before it one longer, and any other instruction ends it. -/
theorem takeWhile_isNop_concat (front : List Instruction) (instruction : Instruction) :
    ((front ++ [instruction]).reverse.takeWhile Instruction.isNop).length =
      if instruction.isNop then (front.reverse.takeWhile Instruction.isNop).length + 1 else 0 := by
  -- The run before the instruction is read backwards from it.
  rw [List.reverse_concat, List.takeWhile_cons]
  split <;> simp

/-- With the `nop` instructions counted, a tally is one of all instructions so far once the rest is
counted. -/
theorem countParts_of (front : List Instruction) (instruction : Instruction) :
    Tally.countParts index
        { Tally.of index front with
          nops := (front ++ [instruction]).countP Instruction.isNop
          nopRun := ((front ++ [instruction]).reverse.takeWhile Instruction.isNop).length }
        instruction =
      Tally.of index (front ++ [instruction]) := by
  -- The loop counts what is not found, where the tally speaks of what has no place.
  have unknown : (fun arg : Arg => !arg.isKnownLabel index) =
      fun arg : Arg => decide ¬arg.Registered index := by
    funext arg
    simp [← Arg.isKnownLabel_iff]
  simp only [Tally.countParts, Tally.of, unknown, labelReferences_concat, List.countP_append,
    List.countP_singleton, List.length_append, List.length_singleton, countP_popsUnpushed_concat,
    List.getLast?_concat, Option.map_some]
  cases instruction.opcode.known <;> rfl

/-- At the position behind some instructions, the instruction there is counted with them. -/
theorem take_succ_length (front rest : List Instruction) (instruction : Instruction) :
    (front ++ instruction :: rest).take (front.length + 1) = front ++ [instruction] := by
  rw [List.take_append, List.take_of_length_le (Nat.le_succ _)]
  simp

/-- The `nop` instructions up to the position behind some others. -/
theorem nopsUpTo_length (front rest : List Instruction) (instruction : Instruction) :
    nopsUpTo (front ++ instruction :: rest) front.length =
      front.countP Instruction.isNop + if instruction.isNop then 1 else 0 := by
  rw [nopsUpTo, take_succ_length, List.countP_append, List.countP_singleton]

/-- The run of `nop` instructions that ends at the position behind some others. -/
theorem nopRunAt_length (front rest : List Instruction) (instruction : Instruction) :
    nopRunAt (front ++ instruction :: rest) front.length =
      if instruction.isNop then (front.reverse.takeWhile Instruction.isNop).length + 1 else 0 := by
  rw [nopRunAt, take_succ_length, takeWhile_isNop_concat]

/-- The position behind some instructions is beyond a limit if a `nop` is there that the limit does
not allow after them. -/
theorem excessAt_length_iff (front rest : List Instruction) (instruction : Instruction) :
    ExcessAt thresholds (front ++ instruction :: rest) front.length ↔
      instruction.isNop = true ∧
        (thresholds.maxTotalNops < front.countP Instruction.isNop + 1 ∨
          thresholds.maxSequentialNops <
            (front.reverse.takeWhile Instruction.isNop).length + 1) := by
  have here : (front ++ instruction :: rest)[front.length]? = some instruction := by simp
  rw [excessAt_iff, here, nopsUpTo_length, nopRunAt_length]
  simp only [Option.some.injEq, exists_eq_left']
  -- Only a `nop` counts, and it counts in both numbers.
  refine and_congr_right fun nop => ?_
  rw [if_pos nop, if_pos nop]

/-- What follows a position does not matter for a limit there. -/
theorem excessAt_append_iff {front rest : List Instruction} {position : Nat}
    (inside : position < front.length) :
    ExcessAt thresholds (front ++ rest) position ↔ ExcessAt thresholds front position := by
  -- Neither the instruction at the position nor those before it change.
  have taken : (front ++ rest).take (position + 1) = front.take (position + 1) :=
    List.take_append_of_le_length inside
  have here : (front ++ rest)[position]? = front[position]? := List.getElem?_append_left inside
  rw [excessAt_iff, excessAt_iff, here, nopsUpTo, nopRunAt, taken]
  rfl

/-- A `nop` beyond a limit ends the scan. -/
theorem count_of_excess {front rest : List Instruction} {instruction : Instruction}
    (excess : ExcessAt thresholds (front ++ instruction :: rest) front.length) :
    (Tally.of index front).count index thresholds instruction =
      .error (excessRejection thresholds (front ++ instruction :: rest) front.length) := by
  obtain ⟨nop, beyond⟩ := (excessAt_length_iff front rest instruction).mp excess
  -- The limit on all of them is checked first, as it is in the rejection.
  have stopped : (Tally.of index front).countNop thresholds instruction =
      .error (excessRejection thresholds (front ++ instruction :: rest) front.length) := by
    rw [Tally.countNop, if_pos nop, excessRejection, nopsUpTo_length, if_pos nop]
    by_cases total : thresholds.maxTotalNops < front.countP Instruction.isNop + 1
    · rw [if_pos total]
      exact if_pos total
    · rw [if_neg total]
      exact (if_neg total).trans (if_pos (beyond.resolve_left total))
  rw [Tally.count, stopped]
  rfl

/-- Any other instruction is added to the tally. -/
theorem count_of_allowed {front rest : List Instruction} {instruction : Instruction}
    (allowed : ¬ExcessAt thresholds (front ++ instruction :: rest) front.length) :
    (Tally.of index front).count index thresholds instruction =
      .ok (Tally.of index (front ++ [instruction])) := by
  rw [excessAt_length_iff, not_and, not_or] at allowed
  -- A `nop` passes both checks, and any other instruction meets neither of them.
  have counted : (Tally.of index front).countNop thresholds instruction =
      .ok { Tally.of index front with
        nops := (front ++ [instruction]).countP Instruction.isNop
        nopRun := ((front ++ [instruction]).reverse.takeWhile Instruction.isNop).length } := by
    rw [Tally.countNop, List.countP_append, List.countP_singleton, takeWhile_isNop_concat]
    by_cases nop : instruction.isNop = true
    · obtain ⟨total, run⟩ := allowed nop
      rw [if_pos nop, if_pos nop, if_pos nop]
      exact (if_neg total).trans (if_neg run)
    · rw [if_neg nop, if_neg nop, if_neg nop]
      rfl
  rw [Tally.count, counted, ← countParts_of]
  rfl

/-- Instructions without a `nop` beyond a limit are all added to the tally. -/
theorem foldlM_count_of_allowed {front rest : List Instruction}
    (allowed : ∀ position, front.length ≤ position →
      ¬ExcessAt thresholds (front ++ rest) position) :
    rest.foldlM (Tally.count index thresholds) (Tally.of index front) =
      .ok (Tally.of index (front ++ rest)) := by
  -- Each instruction joins those in front of the next one.
  induction rest generalizing front with
  | nil =>
    rw [List.append_nil]
    rfl
  | cons instruction rest ih =>
    have joined : front ++ instruction :: rest = front ++ [instruction] ++ rest := by simp
    rw [List.foldlM_cons, count_of_allowed (allowed front.length (Nat.le_refl _)), joined]
    refine ih fun position behind => ?_
    rw [← joined]
    refine allowed position ?_
    rw [List.length_append] at behind
    omega

/-- Of three ratios, the first beyond its limit is rejected. -/
theorem find?_exceeded (first second third : RatioCheck) :
    (([first, second, third].find? (·.exceeded)).map fun check => check.reject check.ratio) =
      if first.exceeded then some (first.reject first.ratio)
      else if second.exceeded then some (second.reject second.ratio)
      else if third.exceeded then some (third.reject third.ratio)
      else none := by
  -- The ratios are tried in order, and the first that is beyond its limit ends the search.
  rw [List.find?_cons, List.find?_cons, List.find?_cons, List.find?_nil]
  cases first.exceeded with
  | true => rfl
  | false =>
    cases second.exceeded with
    | true => rfl
    | false => cases third.exceeded <;> rfl

/-- Instructions without a `nop` beyond a limit are rejected for the first ratio beyond its limit,
if there is one. -/
theorem heuristicRejection?_of_allowed {instructions : List Instruction}
    (allowed : ∀ position, ¬ExcessAt thresholds instructions position) :
    heuristicRejection? index thresholds instructions =
      ((ratioChecks index thresholds instructions).find? (·.exceeded)).map
        fun check => check.reject check.ratio := by
  -- The scan runs through, and leaves the tally of all instructions.
  have scanned : instructions.foldlM (Tally.count index thresholds) {} =
      .ok (Tally.of index instructions) :=
    @foldlM_count_of_allowed index thresholds [] instructions fun position _ => allowed position
  rw [heuristicRejection?, scanned, ratioChecks, find?_exceeded]
  rfl

/-- The scan ends at the first `nop` beyond a limit. -/
theorem heuristicRejection?_of_firstExcessAt {instructions : List Instruction} {position : Nat}
    (first : FirstExcessAt thresholds instructions position) :
    heuristicRejection? index thresholds instructions =
      some (excessRejection thresholds instructions position) := by
  obtain ⟨excess, earlier⟩ := first
  obtain ⟨instruction, found, -⟩ := excess.nop
  obtain ⟨inside, here⟩ := List.getElem?_eq_some_iff.mp found
  -- The instructions are cut at the position.
  obtain ⟨front, rest, rfl, rfl⟩ : ∃ front rest, instructions = front ++ instruction :: rest ∧
      front.length = position := by
    refine ⟨instructions.take position, instructions.drop (position + 1), ?_, ?_⟩
    · rw [← here, List.getElem_cons_drop, List.take_append_drop]
    · rw [List.length_take, Nat.min_eq_left (Nat.le_of_lt inside)]
  -- What is in front of it is scanned to its end.
  have scanned : front.foldlM (Tally.count index thresholds) {} = .ok (Tally.of index front) := by
    refine @foldlM_count_of_allowed index thresholds [] front fun before _ beyond => ?_
    obtain ⟨_, listed, -⟩ := beyond.nop
    obtain ⟨near, -⟩ := List.getElem?_eq_some_iff.mp listed
    exact earlier before near ((excessAt_append_iff near).mpr beyond)
  rw [heuristicRejection?, List.foldlM_append, scanned]
  simp only [Bind.bind, Except.bind]
  rw [List.foldlM_cons, count_of_excess excess]
  rfl

/-- If there is a `nop` beyond a limit, there is a first one. -/
theorem exists_firstExcessAt {instructions : List Instruction} {position : Nat}
    (excess : ExcessAt thresholds instructions position) :
    ∃ first, FirstExcessAt thresholds instructions first := by
  -- The search goes back as long as there is an earlier one.
  induction position using Nat.strongRecOn with
  | ind position ih =>
    by_cases sooner : ∃ earlier < position, ExcessAt thresholds instructions earlier
    · obtain ⟨earlier, before, also⟩ := sooner
      exact ih earlier before also
    · exact ⟨position, excess, fun earlier before also => sooner ⟨earlier, before, also⟩⟩

/-- Instructions look like code if no `nop` and no ratio is beyond its limit. -/
theorem heuristicRejection?_eq_none {instructions : List Instruction} :
    heuristicRejection? index thresholds instructions = none ↔
      (∀ position, ¬ExcessAt thresholds instructions position) ∧
        ∀ check ∈ ratioChecks index thresholds instructions, check.exceeded = false := by
  constructor
  · -- If there were a `nop` beyond a limit, there would be a first one, which would be rejected.
    intro accepted
    have allowed : ∀ position, ¬ExcessAt thresholds instructions position := by
      intro position excess
      obtain ⟨first, least⟩ := exists_firstExcessAt excess
      rw [heuristicRejection?_of_firstExcessAt least] at accepted
      cases accepted
    refine ⟨allowed, ?_⟩
    rw [heuristicRejection?_of_allowed allowed, Option.map_eq_none_iff, List.find?_eq_none]
      at accepted
    simpa using accepted
  · -- The scan passes, and no ratio stops the search.
    rintro ⟨allowed, within⟩
    rw [heuristicRejection?_of_allowed allowed, Option.map_eq_none_iff, List.find?_eq_none]
    simpa using within

/-- A number is less than another one if its key is. -/
theorem Double.lt_iff {a b : Double} :
    a.lt b = true ↔ ∃ x y, a.key? = some x ∧ b.key? = some y ∧ x < y := by
  -- A number without a key is neither below nor above any other.
  unfold Double.lt
  cases a.key? <;> cases b.key? <;> simp

/-- A number is at most another one if its key is. -/
theorem Double.le_iff {a b : Double} :
    a.le b = true ↔ ∃ x y, a.key? = some x ∧ b.key? = some y ∧ x ≤ y := by
  -- A number without a key is neither below nor above any other.
  unfold Double.le
  cases a.key? <;> cases b.key? <;> simp

/-- What is beyond a limit is beyond any lower one. -/
theorem Double.AtMost.lt {low high ratio : Double} (atMost : low.AtMost high)
    (beyond : high.lt ratio = true) : low.lt ratio = true := by
  -- Numbers are compared by their keys, which are those of whole numbers.
  rcases atMost with rfl | le
  · exact beyond
  · obtain ⟨bottom, middle, lowKey, highKey, ordered⟩ := Double.le_iff.mp le
    obtain ⟨same, top, highKey', ratioKey, less⟩ := Double.lt_iff.mp beyond
    obtain rfl : middle = same := Option.some.inj (highKey.symm.trans highKey')
    exact Double.lt_iff.mpr ⟨bottom, top, lowKey, ratioKey, Int.lt_of_le_of_lt ordered less⟩

/-- A `nop` beyond higher limits is also beyond lower ones. -/
theorem ExcessAt.lower {raised : Thresholds} (atMost : thresholds.AtMost raised)
    {instructions : List Instruction} {position : Nat}
    (excess : ExcessAt raised instructions position) :
    ExcessAt thresholds instructions position := by
  refine ⟨excess.nop, ?_⟩
  -- The count that is beyond a limit is beyond the lower one as well.
  rcases excess.beyond with total | run
  · exact .inl (Nat.lt_of_le_of_lt atMost.totalNops total)
  · exact .inr (Nat.lt_of_le_of_lt atMost.sequentialNops run)

/-- Instructions that look like code still do so under higher limits. -/
theorem heuristicRejection?_of_atMost {raised : Thresholds} (atMost : thresholds.AtMost raised)
    {instructions : List Instruction}
    (accepted : heuristicRejection? index thresholds instructions = none) :
    heuristicRejection? index raised instructions = none := by
  rw [heuristicRejection?_eq_none] at accepted ⊢
  obtain ⟨allowed, within⟩ := accepted
  refine ⟨fun position excess => allowed position (excess.lower atMost), ?_⟩
  -- The ratios are the same, and each of them is held against a limit that is no lower.
  have keeps : ∀ {low high ratio : Double}, low.AtMost high → low.lt ratio = false →
      high.lt ratio = false := by
    intro low high ratio atMost below
    cases beyond : high.lt ratio with
    | false => rfl
    | true => rw [← below, atMost.lt beyond]
  simp only [ratioChecks, List.forall_mem_cons, RatioCheck.exceeded] at within ⊢
  obtain ⟨labels, pops, opcodes, none⟩ := within
  exact ⟨keeps atMost.unknownLabels labels, keeps atMost.popWithoutPush pops,
    keeps atMost.unknownOpcodes opcodes, none⟩

end

/-- What the heuristics accept.

The first `nop` beyond a limit is what instructions are rejected for: for too many in all if that
limit is exceeded there, and for too many in a row if not. Without such a `nop` it is the first
ratio beyond its limit. What is not rejected is not rejected under higher limits either. -/
theorem heuristicRejection?_exact (index : LabelIndex) (thresholds : Thresholds)
    (instructions : List Instruction) :
    (∀ position, FirstExcessAt thresholds instructions position →
        heuristicRejection? index thresholds instructions =
          if thresholds.maxTotalNops < nopsUpTo instructions position then
            some (.tooManyNops thresholds.maxTotalNops)
          else some (.tooManySequentialNops thresholds.maxSequentialNops)) ∧
      ((∀ position, ¬FirstExcessAt thresholds instructions position) →
        heuristicRejection? index thresholds instructions =
          ((ratioChecks index thresholds instructions).find? (·.exceeded)).map
            fun check => check.reject check.ratio) ∧
      ∀ raised, thresholds.AtMost raised →
        heuristicRejection? index thresholds instructions = none →
          heuristicRejection? index raised instructions = none := by
  refine ⟨fun position first => ?_, fun never => ?_, fun raised atMost accepted => ?_⟩
  · -- The loop stops at the first such position, and tests the total before the run.
    rw [heuristicRejection?_of_firstExcessAt first, excessRejection, apply_ite some]
  · -- Every excess has a first one before it, so that there is none at all.
    refine heuristicRejection?_of_allowed fun position excess => ?_
    obtain ⟨first, least⟩ := exists_firstExcessAt excess
    exact never first least
  · -- Higher limits only allow more.
    exact heuristicRejection?_of_atMost atMost accepted

/-- Code that does nothing twice, and then jumps to a label without a place. -/
def idleCode : List Instruction :=
  [{ opcode := OpcodeTable.standard.get Code.nop }, { opcode := OpcodeTable.standard.get Code.nop },
    { opcode := OpcodeTable.standard.get Code.jmp, args := [.int 3] }]

/-- The second `nop` is beyond a limit of one in a row. Under the usual limits it is the label that
counts, and where labels do not count, more `nop` instructions can be allowed as well. -/
theorem heuristicRejection?_exact_idleCode :
    FirstExcessAt { maxSequentialNops := 1 } idleCode 1 ∧
      heuristicRejection? (.ofTable []) { maxSequentialNops := 1 } idleCode =
        some (.tooManySequentialNops 1) ∧
      (∀ position, ¬FirstExcessAt {} idleCode position) ∧
      heuristicRejection? (.ofTable []) {} idleCode = some (.unknownLabels (.ofRatio 1 1)) ∧
      heuristicRejection? (.ofTable []) { maxUnknownLabelRatio := .ofRatio 1 1 } idleCode = none ∧
      heuristicRejection? (.ofTable [])
        { maxTotalNops := 30, maxUnknownLabelRatio := .ofRatio 1 1 } idleCode = none := by
  have first : FirstExcessAt { maxSequentialNops := 1 } idleCode 1 := by
    refine ⟨⟨⟨_, rfl, rfl⟩, .inr (by decide)⟩, fun earlier before excess => ?_⟩
    obtain rfl : earlier = 0 := by omega
    exact absurd excess.beyond (by decide)
  have never : ∀ position, ¬FirstExcessAt {} idleCode position := by
    intro position ⟨excess, _⟩
    -- There are too few instructions to exceed either limit.
    have few : (idleCode.take (position + 1)).length ≤ 3 := List.length_take_le' _ _
    have nops : nopsUpTo idleCode position ≤ 3 := Nat.le_trans List.countP_le_length few
    have run : nopRunAt idleCode position ≤ 3 := by
      refine Nat.le_trans (List.takeWhile_sublist _).length_le ?_
      rwa [List.length_reverse]
    rcases excess.beyond with total | sequential
    · exact absurd total (Nat.not_lt.mpr (Nat.le_trans nops (by decide)))
    · exact absurd sequential (Nat.not_lt.mpr (Nat.le_trans run (by decide)))
  have accepted : heuristicRejection? (.ofTable []) { maxUnknownLabelRatio := .ofRatio 1 1 }
      idleCode = none := by cbv
  have atMost : Thresholds.AtMost { maxUnknownLabelRatio := .ofRatio 1 1 }
      { maxTotalNops := 30, maxUnknownLabelRatio := .ofRatio 1 1 } :=
    ⟨by decide, by decide, .inl rfl, .inl rfl, .inl rfl⟩
  refine ⟨first, ?_, never, ?_, accepted, ?_⟩
  · exact ((heuristicRejection?_exact _ _ _).1 1 first).trans (by decide)
  · exact ((heuristicRejection?_exact _ _ _).2.1 never).trans (by cbv)
  · exact (heuristicRejection?_exact _ _ _).2.2 _ atMost accepted

end QuestScript
