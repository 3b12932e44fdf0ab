import QuestScript.Proofs.Flow.Links

/-! Calls that are made and ended, and which of their ends a flow graph knows.

A graph leads from a return to the block after a call if control gets from a callee to the return
before any call has ended. A return that comes after a call of its own may be missed. -/

namespace QuestScript

/-- Where control is. -/
structure Control where
  block : Nat
  /-- Where it goes on when the calls that have been made end, the last one first. -/
  pending : List Nat
  /-- How many calls have ended. -/
  ended : Nat
deriving DecidableEq, Repr

/-- A block ends with a call. -/
def EndsInCall (segments : List CodeSegment) (number : Nat) : Prop :=
  ∃ block, (blocksOf 0 segments)[number]? = some block ∧ block.branch.kind = .call

/-- One step of control, which keeps in mind where each call comes from. -/
inductive Control.Steps (segments : List CodeSegment) : Control → Control → Prop where
  /-- It goes from a block that makes no call to where this leads by itself. -/
  | go {number next ended : Nat} {pending : List Nat} (plain : ¬EndsInCall segments number)
    (flows : Flows segments number next) :
    Steps segments ⟨number, pending, ended⟩ ⟨next, pending, ended⟩
  /-- It enters a callee, and is to go on with the block after the call. -/
  | enter {number callee ended : Nat} {pending : List Nat}
    (calls : Calls segments number callee) :
    Steps segments ⟨number, pending, ended⟩ ⟨callee, (number + 1) :: pending, ended⟩
  /-- It returns to where the last call that has not ended comes from. -/
  | leave {number site ended : Nat} {pending : List Nat}
    (returns : returnsAt (blocksOf 0 segments) number = true) :
    Steps segments ⟨number, site :: pending, ended⟩ ⟨site, pending, ended + 1⟩

/-- Control gets from one place to another by some steps. -/
abbrev Control.Gets (segments : List CodeSegment) : Control → Control → Prop :=
  Relation.ReflTransGen (Steps segments)

variable {segments : List CodeSegment} {number next caller callee : Nat}

/-- Where control goes by itself, it goes on or enters a callee. -/
theorem Flows.calls (flows : Flows segments number next) (ends : EndsInCall segments number) :
    Calls segments number next := by
  obtain ⟨block, found, kind⟩ := ends
  cases flows with
  | next same falls _ =>
    -- A call does not go on with the next block by itself.
    cases Option.some.inj (found.symm.trans same)
    rw [kind] at falls
    rcases falls with falls | falls <;> cases falls
  | target same named enters =>
    cases Option.some.inj (found.symm.trans same)
    exact ⟨block, found, kind, _, named, enters⟩

namespace Control

variable {start stop : Control}

/-- No step takes back that a call has ended. -/
theorem Steps.ended_le (steps : Steps segments start stop) : start.ended ≤ stop.ended := by
  -- Only a return changes the number, and adds to it.
  cases steps with
  | go _ _ => exact Nat.le_refl _
  | enter _ => exact Nat.le_refl _
  | leave _ => exact Nat.le_succ _

/-- A step that ends no call goes where its block leads by itself. -/
theorem Steps.flows (steps : Steps segments start stop) (same : stop.ended = start.ended) :
    Flows segments start.block stop.block := by
  cases steps with
  | go _ flows => exact flows
  | enter calls => exact calls.flows
  -- The end of a call would have been counted.
  | leave _ => exact absurd same (Nat.succ_ne_self _)

/-- No calls are taken back on the way. -/
theorem ended_le_of_gets (gets : Gets segments start stop) : start.ended ≤ stop.ended := by
  induction gets with
  | refl => exact Nat.le_refl _
  -- The number of ended calls only grows, step by step.
  | tail _ steps ih => exact Nat.le_trans ih steps.ended_le

/-- On a way on which no call ends, each block leads to the next one by itself. -/
theorem reaches_of_gets (gets : Gets segments start stop) (same : stop.ended = start.ended) :
    Relation.ReflTransGen (Flows segments) start.block stop.block := by
  induction gets with
  | refl => exact .refl
  | @tail middle stop gets steps ih =>
    -- The number of calls that have ended is the same all along.
    have before := ended_le_of_gets gets
    have behind := steps.ended_le
    exact .tail (ih (by omega)) (steps.flows (by omega))

/-- Where blocks lead by themselves, control gets without the end of a call, if only with calls that
are still to end. -/
theorem exists_gets_of_reaches (reaches : Relation.ReflTransGen (Flows segments) number next)
    (ended : Nat) : ∃ pending, Gets segments ⟨number, [], ended⟩ ⟨next, pending, ended⟩ := by
  induction reaches with
  | refl => exact ⟨[], .refl⟩
  | @tail middle next _ flows ih =>
    obtain ⟨pending, gets⟩ := ih
    -- A call is entered, and is still to end behind the block.
    by_cases ends : EndsInCall segments middle
    · exact ⟨(middle + 1) :: pending, gets.tail (.enter (flows.calls ends))⟩
    · exact ⟨pending, gets.tail (.go ends flows)⟩

end Control

/-- From a return that control gets to from a callee, with all calls ended that were made on the
way, a flow graph leads to the block after the call if none was made. In general it does so if and
only if control also gets to the return from one of the callees before any call has ended. -/
theorem returnSite_mem_successors_iff {ret ended : Nat} (calls : Calls segments caller callee)
    (behind : caller + 1 < (FlowGraph.build segments).blocks.length)
    (returns : returnsAt (FlowGraph.build segments).blocks ret = true)
    (gets : Control.Gets segments ⟨callee, [], 0⟩ ⟨ret, [], ended⟩) :
    (ended = 0 → caller + 1 ∈ (FlowGraph.build segments).successors ret) ∧
      (caller + 1 ∈ (FlowGraph.build segments).successors ret ↔
        ∃ entry pending, Calls segments caller entry ∧
          Control.Gets segments ⟨entry, [], 0⟩ ⟨ret, pending, 0⟩) := by
  have law : caller + 1 ∈ (FlowGraph.build segments).successors ret ↔
      ∃ entry pending, Calls segments caller entry ∧
        Control.Gets segments ⟨entry, [], 0⟩ ⟨ret, pending, 0⟩ := by
    rw [mem_successors_build]
    constructor
    · rintro (flows | ⟨other, entry, same, -, -, enters, reaches⟩)
      · -- A return leads nowhere by itself.
        have goesOn := flows.not_returnsAt
        exact absurd (goesOn.symm.trans returns) Bool.false_ne_true
      · -- The block after a call tells which call it is.
        obtain rfl : caller = other := Nat.succ.inj same
        obtain ⟨pending, way⟩ := Control.exists_gets_of_reaches reaches 0
        exact ⟨entry, pending, enters, way⟩
    · rintro ⟨entry, pending, enters, way⟩
      exact .inr ⟨caller, entry, rfl, behind, returns, enters, Control.reaches_of_gets way rfl⟩
  refine ⟨?_, law⟩
  rintro rfl
  exact law.mpr ⟨callee, [], calls, gets⟩

/-- Code that calls a function, which calls another one and sets a register before it returns. -/
def nestedCode : List CodeSegment :=
  [⟨[0], [{ opcode := OpcodeTable.standard.get Code.call, args := [.int 1] },
      { opcode := OpcodeTable.standard.get Code.ret }]⟩,
    ⟨[1], [{ opcode := OpcodeTable.standard.get Code.call, args := [.int 2] },
      { opcode := OpcodeTable.standard.get Code.leti, args := [.int 1, .int 5] },
      { opcode := OpcodeTable.standard.get Code.ret }]⟩,
    ⟨[2], [{ opcode := OpcodeTable.standard.get Code.leti, args := [.int 1, .int 3] },
      { opcode := OpcodeTable.standard.get Code.ret }]⟩]

/-- The function returns with no call of its own left to end, but its return does not lead to the
block after the call: control never gets there before the other function has returned. -/
theorem returnSite_not_mem_successors_nestedCode :
    Calls nestedCode 0 2 ∧ 0 + 1 < (FlowGraph.build nestedCode).blocks.length ∧
      returnsAt (FlowGraph.build nestedCode).blocks 3 = true ∧
      Control.Gets nestedCode ⟨2, [], 0⟩ ⟨3, [], 1⟩ ∧
      0 + 1 ∉ (FlowGraph.build nestedCode).successors 3 ∧
      ¬∃ entry pending, Calls nestedCode 0 entry ∧
        Control.Gets nestedCode ⟨entry, [], 0⟩ ⟨3, pending, 0⟩ := by
  have outer : Calls nestedCode 0 2 := ⟨_, rfl, rfl, 1, by decide, rfl⟩
  have inner : Calls nestedCode 2 4 := ⟨_, rfl, rfl, 2, by decide, rfl⟩
  have behind : 0 + 1 < (FlowGraph.build nestedCode).blocks.length := by decide
  have returns : returnsAt (FlowGraph.build nestedCode).blocks 3 = true := by decide
  -- The other function is entered, and returns to the block after its call.
  have gets : Control.Gets nestedCode ⟨2, [], 0⟩ ⟨3, [], 1⟩ :=
    .tail (.single (.enter inner)) (.leave (by decide))
  have nowhere : (FlowGraph.build nestedCode).successors 3 = [] := by cbv
  have missing : 0 + 1 ∉ (FlowGraph.build nestedCode).successors 3 := by
    rw [nowhere]
    exact List.not_mem_nil
  have law := (returnSite_mem_successors_iff outer behind returns gets).2
  exact ⟨outer, behind, returns, gets, missing, fun early => missing (law.mpr early)⟩

end QuestScript
