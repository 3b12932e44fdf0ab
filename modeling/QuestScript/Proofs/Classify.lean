import QuestScript.Classify
import QuestScript.Proofs.Instruction.Code
import QuestScript.Script.Encode

/-! Ranges that are taken for code are written as they stood.

Only the size of all instructions together is compared with that of the range. That is enough, since
none of them is written in fewer bytes than it was read from. -/

namespace QuestScript

variable {bytes : List UInt8} {start stop : Nat} {index : LabelIndex} {table : OpcodeTable}
  {width : CharWidth} {thresholds : Thresholds} {instructions : List Instruction}

/-- A range is taken for code if it is read as instructions of its size, and they look like code. -/
theorem classify_eq_ok :
    classify bytes start stop index table width thresholds = .ok instructions ↔
      decodeRange bytes start stop table width = .ok instructions ∧
        codeSize width instructions = min stop bytes.length - start ∧
        heuristicRejection? index thresholds instructions = none := by
  unfold classify
  cases read : decodeRange bytes start stop table width with
  | error cause => simp
  | ok found =>
    rw [Except.ok.injEq]
    -- The size is checked first, and then what the instructions look like.
    by_cases filled : codeSize width found = min stop bytes.length - start
    · have same : (found.map (·.size width)).foldr (· + ·) 0 = min stop bytes.length - start :=
        filled
      simp only [same, ne_eq, not_true_eq_false, if_false]
      -- The range is filled, so that only a rejection can be against it.
      cases rejected : heuristicRejection? index thresholds found with
      | none =>
        constructor
        · intro accepted
          cases accepted
          exact ⟨rfl, filled, rejected⟩
        · intro ⟨read, _, _⟩
          rw [read]
      | some rejection =>
        refine iff_of_false (by simp) fun ⟨same, _, accepted⟩ => ?_
        rw [← same, rejected] at accepted
        cases accepted
    · have other : (found.map (·.size width)).foldr (· + ·) 0 ≠ min stop bytes.length - start :=
        filled
      simp only [other, ne_eq, not_false_eq_true, if_true]
      refine iff_of_false (by simp) fun ⟨same, size, _⟩ => filled ?_
      rw [same, size]

/-- The instructions of a range are written as its bytes, up to the terminators of strings. -/
theorem spelled_of_decodeRange (last : table.VariadicLast) (ordered : start ≤ stop)
    (inside : stop ≤ bytes.length)
    (run : decodeRange bytes start stop table width = .ok instructions) :
    ∃ pieces next, instructions.mapM (·.encode width) = .ok pieces ∧
      pieces.flatten.length = codeSize width instructions ∧
        Spelled width ⟨start, (bytes.take stop).drop start⟩ next ((bytes.take stop).drop start)
          pieces.flatten (∀ instruction ∈ instructions, instruction.WellTyped table width)
          (codeCut? width instructions) := by
  unfold decodeRange at run
  rw [Reader.within_eq ordered inside] at run
  obtain ⟨next, decoded, done⟩ := decodes_of_decodeAllSteps (Nat.le_refl _) run
  obtain ⟨read, pieces, encoded, size, spelled⟩ := decoded.spelled last
  -- The range is read to its end, so that its bytes are what was read.
  have all := spelled.moves.rest
  rw [done, List.append_nil] at all
  dsimp only at all
  rw [← all] at spelled
  exact ⟨pieces, next, encoded, size, spelled⟩

/-- Code that is a script of its own is written as the bytes of its instructions. -/
theorem Script.encode_code {pieces : List (List UInt8)}
    (written : instructions.mapM (·.encode width) = .ok pieces) (labels : LabelSet) :
    Script.encode width ⟨[⟨labels, .code instructions⟩]⟩ =
      .ok ⟨pieces.flatten, labelTable [(labels, 0)]⟩ := by
  -- The only segment is the code, so that its bytes are all there are.
  have segment : Segment.encode width ⟨labels, .code instructions⟩ = .ok pieces.flatten := by
    simp only [Segment.encode, written]
    rfl
  rw [Script.encode, List.mapM_cons, segment, List.mapM_nil]
  simp [Bind.bind, Except.bind, pure, Except.pure, startsFrom]

/-- A range is taken for code exactly if it is read as instructions that look like code, and that
are written as the bytes of the range when they are a segment of their own. -/
theorem classify_eq_ok_iff_encode (last : table.VariadicLast) (ordered : start ≤ stop)
    (inside : stop ≤ bytes.length) (labels : LabelSet) :
    classify bytes start stop index table width thresholds = .ok instructions ↔
      decodeRange bytes start stop table width = .ok instructions ∧
        heuristicRejection? index thresholds instructions = none ∧
        ∃ encoded, Script.encode width ⟨[⟨labels, .code instructions⟩]⟩ = .ok encoded ∧
          encoded.bytes = (bytes.take stop).drop start := by
  have count : ((bytes.take stop).drop start).length = min stop bytes.length - start := by
    rw [List.length_drop, List.length_take]
  rw [classify_eq_ok]
  constructor
  · intro ⟨run, filled, accepted⟩
    obtain ⟨pieces, next, written, size, spelled⟩ :=
      spelled_of_decodeRange last ordered inside run
    -- Nothing was added in writing, so that all was written as it was read.
    obtain ⟨same, -⟩ := spelled.exact (by omega)
    exact ⟨run, accepted, _, Script.encode_code written labels, same.symm⟩
  · intro ⟨run, accepted, encoded, made, same⟩
    -- What is written has the size of the instructions, and here that of the range.
    obtain ⟨pieces, next, written, size, -⟩ := spelled_of_decodeRange last ordered inside run
    rw [Script.encode_code written labels] at made
    obtain rfl := Except.ok.inj made
    refine ⟨run, ?_, accepted⟩
    rw [← size, ← count, ← same]

/-- Code that pushes a text and a register, between two other bytes. -/
def heldBytes : List UInt8 := [0xFF, 0x4E, 0x61, 0x00, 0x00, 0x00, 0x48, 0x07, 0x01, 0x00]

/-- The instructions of the code. -/
def heldCode : List Instruction :=
  [{ opcode := OpcodeTable.standard.get Code.argPushs, args := [.string "a"] },
    { opcode := OpcodeTable.standard.get Code.argPushr, args := [.int 7] },
    { opcode := OpcodeTable.standard.get Code.ret }]

/-- The range between both bytes is taken for code, and written as it stood. -/
theorem classify_heldBytes :
    classify heldBytes 1 9 (.ofTable []) .standard .wide {} = .ok heldCode ∧
      ∃ encoded, Script.encode .wide ⟨[⟨[0], .code heldCode⟩]⟩ = .ok encoded ∧
        encoded.bytes = [0x4E, 0x61, 0x00, 0x00, 0x00, 0x48, 0x07, 0x01] := by
  -- The range is accepted, and so it is the writing of what it was decoded to.
  have taken : classify heldBytes 1 9 (.ofTable []) .standard .wide {} = .ok heldCode := rfl
  have last : OpcodeTable.standard.VariadicLast :=
    OpcodeTable.variadicLast_of_entered OpcodeTable.standard_entered
  have exact := (classify_eq_ok_iff_encode last (by decide) (by decide) [0]).mp taken
  exact ⟨taken, exact.2.2⟩

end QuestScript
