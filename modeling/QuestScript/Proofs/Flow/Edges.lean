import QuestScript.Proofs.Flow.Links

/-! All edges of a flow graph, by what the code says about them.

A search for returns goes on from no return, and so takes no edge that leads back from a call. Which
edges there are does not depend on the order in which the calls are considered. -/

namespace QuestScript

/-- An edge along which control goes by itself. -/
inductive DirectEdge (segments : List CodeSegment) : Nat → Nat → Prop where
  /-- It leads to the next block, if there is one. -/
  | next {number : Nat} {block : Block} (found : (blocksOf 0 segments)[number]? = some block)
    (kind : block.branch.kind = .fallthrough ∨ block.branch.kind = .conditional)
    (behind : number + 1 < (blocksOf 0 segments).length) : DirectEdge segments number (number + 1)
  /-- It leads to where a label of the branch stands. -/
  | target {number entry : Nat} {block : Block} {label : Int32}
    (found : (blocksOf 0 segments)[number]? = some block) (kind : block.branch.kind ≠ .ret)
    (named : label ∈ block.branch.targets) (enters : Enters segments label entry) :
    DirectEdge segments number entry

/-- An edge from a return to the block after a call, which is reached from the callee by edges of
the first kind. -/
structure ReturnEdge (segments : List CodeSegment) (number next : Nat) : Prop where
  returns : ∃ block, (blocksOf 0 segments)[number]? = some block ∧ block.branch.kind = .ret
  behind : next < (blocksOf 0 segments).length
  called : ∃ caller block label callee, next = caller + 1 ∧
    (blocksOf 0 segments)[caller]? = some block ∧ block.branch.kind = .call ∧
    label ∈ block.branch.targets ∧ Enters segments label callee ∧
    Relation.ReflTransGen (DirectEdge segments) callee number

section Kinds

variable {segments : List CodeSegment} {number next : Nat}

/-- The first edges are those along which control goes by itself. -/
theorem directEdge_iff_flows : DirectEdge segments number next ↔ Flows segments number next := by
  constructor
  · intro edge
    cases edge with
    | next found kind behind => exact .next found kind behind
    | target found _ named enters => exact .target found named (entryBlock?_eq_some.mpr enters)
  · intro flows
    -- A block that returns names no label, so that it makes no difference to leave it out.
    have onward := flows.not_returnsAt
    cases flows with
    | next found kind behind => exact .next found kind behind
    | target found named enters =>
      refine .target found (fun returns => ?_) named (entryBlock?_eq_some.mp enters)
      rw [returnsAt_iff.mpr ⟨_, found, returns⟩] at onward
      cases onward

/-- The other edges are those along which control returns to a caller. -/
theorem returnEdge_iff_resumes :
    ReturnEdge segments number next ↔ ∃ caller, Resumes segments caller number next := by
  -- Both relations are the same, so control reaches the same blocks along them.
  have same : DirectEdge segments = Flows segments := by
    funext number next
    exact propext directEdge_iff_flows
  constructor
  · rintro ⟨returns, behind, caller, block, label, callee, follows, found, kind, named, enters,
      reaches⟩
    rw [same] at reaches
    exact ⟨caller, follows, behind, returnsAt_iff.mpr returns, callee,
      ⟨block, found, kind, label, named, entryBlock?_eq_some.mpr enters⟩, reaches⟩
  · rintro ⟨caller, follows, behind, returns, callee, ⟨block, found, kind, label, named, enters⟩,
      reaches⟩
    rw [← same] at reaches
    exact ⟨returnsAt_iff.mp returns, behind, caller, block, label, callee, follows, found, kind,
      named, entryBlock?_eq_some.mp enters, reaches⟩

end Kinds

/-- The edges of a flow graph are those along which control goes by itself, and those from the
returns that it reaches from a callee in this way to the block after the call.

They are the same if the callers are linked one after another, in any order, with searches along the
edges that are there by then. No block is listed twice, and both lists have the same edges. -/
theorem FlowGraph.build_edges_exact (segments : List CodeSegment) :
    (∀ number next, next ∈ (build segments).successors number ↔
      DirectEdge segments number next ∨ ReturnEdge segments number next) ∧
    (∀ order : List Nat,
      (∀ caller block, (blocksOf 0 segments)[caller]? = some block →
        block.branch.kind = .call → caller ∈ order) →
      ∀ number next,
        next ∈ (order.foldl (linkCaller (entriesFrom 0 segments) (blocksOf 0 segments))
            (linkDirect (entriesFrom 0 segments) (blocksOf 0 segments))).successors number ↔
          next ∈ (build segments).successors number) ∧
    (∀ number, ((build segments).successors number).Nodup ∧
      ((build segments).predecessors number).Nodup) ∧
    ∀ number next, next ∈ (build segments).successors number ↔
      number ∈ (build segments).predecessors next := by
  refine ⟨fun number next => ?_, fun order complete number next => ?_, fun number => ?_,
    fun number next => (mirrored_build number next).symm⟩
  · rw [successors_build_iff, directEdge_iff_flows, returnEdge_iff_resumes]
  · rw [(grows_linkCallers order).mem_successors, mem_successors_linkDirect, successors_build_iff]
    refine or_congr_right ⟨fun ⟨caller, _, resumes⟩ => ⟨caller, resumes⟩, ?_⟩
    -- Control returns only to callers, and all of them have been linked.
    rintro ⟨caller, resumes⟩
    obtain ⟨-, -, -, callee, ⟨block, found, calls, -⟩, -⟩ := id resumes
    exact ⟨caller, complete caller block found calls, resumes⟩
  · exact ⟨sound_build.nodup_successors number, sound_build.nodup_predecessors number⟩

/-- Code that calls a function twice, which jumps to its own start until a register is set. -/
def twiceCode : List CodeSegment :=
  [⟨[0], [{ opcode := OpcodeTable.standard.get Code.call, args := [.int 1] },
      { opcode := OpcodeTable.standard.get Code.call, args := [.int 1] },
      { opcode := OpcodeTable.standard.get Code.ret }]⟩,
    ⟨[1], [{ opcode := OpcodeTable.standard.get Code.jmpOff, args := [.int 1, .int 7] },
      { opcode := OpcodeTable.standard.get Code.ret }]⟩]

/-- The function returns to both callers, also if the second one is linked first. -/
theorem build_edges_exact_twiceCode :
    (FlowGraph.build twiceCode).successors 4 = [1, 2] ∧
      ReturnEdge twiceCode 4 1 ∧ ReturnEdge twiceCode 4 2 ∧
      ∀ number next,
        next ∈ ([1, 0].foldl (linkCaller (entriesFrom 0 twiceCode) (blocksOf 0 twiceCode))
            (linkDirect (entriesFrom 0 twiceCode) (blocksOf 0 twiceCode))).successors number ↔
          next ∈ (FlowGraph.build twiceCode).successors number := by
  obtain ⟨kinds, ordered, -⟩ := FlowGraph.build_edges_exact twiceCode
  have back : (FlowGraph.build twiceCode).successors 4 = [1, 2] := by cbv
  -- The function ends with a return, from which control does not go on by itself.
  have stops : ∀ next, ¬DirectEdge twiceCode 4 next := by
    intro next edge
    have onward := (directEdge_iff_flows.mp edge).not_returnsAt
    revert onward
    decide
  have returned : ∀ next ∈ [1, 2], ReturnEdge twiceCode 4 next := by
    intro next listed
    rw [← back] at listed
    exact ((kinds 4 next).mp listed).resolve_left (stops next)
  refine ⟨back, returned 1 (by decide), returned 2 (by decide), ordered [1, 0] ?_⟩
  intro caller block found calls
  have known : caller < 5 := (List.getElem?_eq_some_iff.mp found).1
  interval_cases caller <;> cases found <;> first | decide | cases calls

end QuestScript
