import QuestScript.Proofs.Discovery.Invariant
import QuestScript.Proofs.Instruction.Code

/-! What a discovery fails at: instructions that cannot be decoded, and labels without a place. -/

namespace QuestScript

namespace Source

variable {source : Source} {start stop steps : Nat} {reader : Reader} {failure : ParseError}

/-- A failure of a strict parse: at its offset, which is inside the script, no instruction can be
decoded, and this is why. -/
structure FailsAt (source : Source) (failure : ParseError) : Prop where
  strict : source.options.lenient = false
  inside : failure.offset < source.bytes.length
  undecodable : ∃ opcode next, decodeInstruction source.opcodes source.options.width
    ⟨failure.offset, source.bytes.drop failure.offset⟩ = .error ⟨opcode, failure.cause⟩ next

/-- A lenient parse decodes something in every range. -/
theorem exists_decodeSegmentSteps (lenient : source.options.lenient = true) (start stop steps : Nat)
    (reader : Reader) :
    ∃ made, source.decodeSegmentSteps start stop steps reader = .ok made := by
  induction steps generalizing reader with
  | zero => exact ⟨_, rfl⟩
  | succ steps ih =>
    simp only [decodeSegmentSteps, lenient]
    split
    · exact ⟨_, rfl⟩
    · -- What cannot be decoded is passed over, or ends the segment.
      split
      · rename_i instruction next read
        obtain ⟨made, rest⟩ := ih next
        exact ⟨_, by rw [rest]; rfl⟩
      · rename_i opcode cause next read
        cases opcode with
        | none => exact ⟨_, rfl⟩
        | some opcode =>
          obtain ⟨made, rest⟩ := ih next
          exact ⟨_, by rw [rest]; rfl⟩

/-- A strict parse fails in a range at the first instruction that cannot be decoded. -/
theorem failsAt_of_decodeSegmentSteps (strict : source.options.lenient = false)
    (inside : stop ≤ source.bytes.length) (placed : reader.rest = source.bytes.drop reader.position)
    (run : source.decodeSegmentSteps start stop steps reader = .error failure) :
    source.FailsAt failure := by
  -- Until then the reader has the script from its position on in front of it.
  induction steps generalizing reader with
  | zero => cases run
  | succ steps ih =>
    simp only [decodeSegmentSteps, strict] at run
    split at run
    · cases run
    · rename_i before
      split at run
      · rename_i instruction next read
        -- An instruction was decoded, so that the failure is in what follows it.
        obtain ⟨bytes, -, moved⟩ := moves_of_decodeInstruction read
        have still : next.rest = source.bytes.drop next.position := by
          rw [moved.position, ← List.drop_drop, ← placed, moved.rest, List.drop_left]
        cases rest : source.decodeSegmentSteps start stop steps next with
        | error failure =>
          rw [rest] at run
          cases run
          exact ih still rest
        | ok made =>
          rw [rest] at run
          cases run
      · rename_i opcode cause next read
        -- No instruction is decoded here, and the reader has what the script has here.
        cases run
        refine ⟨strict, by dsimp only; omega, opcode, next, ?_⟩
        rw [← read, ← placed]

/-- The code of a range fails to be decoded where an instruction does. -/
theorem failsAt_of_decodeSegment (inside : stop ≤ source.bytes.length)
    (run : source.decodeSegment start stop = .error failure) : source.FailsAt failure := by
  -- Only a strict parse can fail.
  cases strict : source.options.lenient with
  | false =>
    refine failsAt_of_decodeSegmentSteps strict inside ?_ run
    simp only [Reader.within, Nat.min_self, List.take_length]
  | true =>
    obtain ⟨made, fine⟩ := exists_decodeSegmentSteps strict start stop (stop - start)
      (Reader.within source.bytes start source.bytes.length)
    rw [decodeSegment, fine] at run
    cases run

end Source

/-- Whatever a computation fails with is like this. -/
def FailsLike (like : ParseError → Prop) {α : Type} (run : Discovering α) : Prop :=
  ∀ state failure after, run state = .error failure after → like failure

namespace FailsLike

variable {like : ParseError → Prop} {α β : Type}

/-- What only changes a discovery does not fail. -/
theorem of_ok {run : Discovering α}
    (succeeds : ∀ state, ∃ value after, run state = .ok value after) : FailsLike like run := by
  intro state failure after fails
  -- A computation has one result, which is a value here.
  obtain ⟨value, last, ran⟩ := succeeds state
  rw [ran] at fails
  cases fails

/-- A result is no failure. -/
theorem pure (value : α) : FailsLike like (Pure.pure value) :=
  .of_ok fun state => ⟨value, state, rfl⟩

/-- Two computations fail as the first or as the second of them does. -/
theorem bind {first : Discovering α} {second : α → Discovering β} (front : FailsLike like first)
    (back : ∀ value, FailsLike like (second value)) : FailsLike like (first >>= second) := by
  intro state failure after fails
  -- If the first succeeds then the second has failed.
  cases run : first state with
  | ok value next =>
    rw [bind_of_ok run] at fails
    exact back value next failure after fails
  | error cause next =>
    rw [bind_of_error run] at fails
    cases fails
    exact front state _ _ run

end FailsLike

section

variable (source : Source)

/-- A range fails to be decoded where an instruction does. -/
theorem failsLike_decodeAt (offset : Nat) (kind : SegmentKind) (labels : LabelSet) :
    FailsLike source.FailsAt (decodeAt source offset kind labels) := by
  intro state failure after fails
  -- Data is always there, and a text that cannot be read is data.
  unfold decodeAt at fails
  cases kind with
  | data => cases fails
  | text =>
    dsimp only at fails
    split at fails <;> cases fails
  | code =>
    dsimp only at fails
    split at fails
    · rename_i cause read
      cases fails
      exact Source.failsAt_of_decodeSegment (source.stopAt_le offset) read
    · cases fails

/-- The discovery of a label fails where an instruction does. -/
theorem failsLike_discoverOne (label : Label) (kind : SegmentKind) :
    FailsLike source.FailsAt (discoverOne source label kind) := by
  intro state failure after fails
  -- Only decoding fails, whether it is for the first time or not.
  unfold discoverOne at fails
  split at fails
  · cases fails
  · split at fails
    · cases fails
    · split at fails
      · exact failsLike_decodeAt source _ kind _ _ failure after fails
      · dsimp only at fails
        split at fails
        · exact failsLike_decodeAt source _ kind _ _ failure after fails
        · cases fails

/-- The discovery of the code that control drops into fails where an instruction does. -/
theorem failsLike_discoverChain (steps : Nat) (label : Label) (kind : SegmentKind) :
    FailsLike source.FailsAt (discoverChain source steps label kind) := by
  -- Each step of the chain is one discovery, and goes on with what control drops into.
  induction steps generalizing label kind with
  | zero => exact .pure ()
  | succ steps ih =>
    refine (failsLike_discoverOne source label kind).bind fun next => ?_
    cases next with
    | none => exact .pure ()
    | some next => exact ih next .code

/-- The discovery of what some requests ask for fails where an instruction does. -/
theorem failsLike_discoverAll (requests : Requests) :
    FailsLike source.FailsAt (discoverAll source requests) := by
  -- The requests are served in turn, and each chain fails like its steps.
  induction requests with
  | nil => exact .pure ()
  | cons request rest ih => exact (failsLike_discoverChain source _ _ _).bind fun _ => ih

/-- A pass fails where an instruction does. -/
theorem failsLike_discoveryPass (pass : Nat) (pending : Requests) :
    FailsLike source.FailsAt (discoveryPass source pass pending) := by
  -- Neither what is counted before the requests nor the harvest after them fails.
  refine .bind (.of_ok fun state => ⟨state, state, rfl⟩) fun before => ?_
  refine .bind (.of_ok fun state => ⟨(), _, rfl⟩) fun _ => ?_
  exact (failsLike_discoverAll source pending).bind fun _ => .of_ok fun state => ⟨_, _, rfl⟩

/-- Passes fail where an instruction does. -/
theorem failsLike_discoveryPasses (passes pass : Nat) (pending : Requests) :
    FailsLike source.FailsAt (discoveryPasses source passes pass pending) := by
  -- A pass that makes progress is followed by another one.
  induction passes generalizing pass pending with
  | zero => exact .pure _
  | succ passes ih =>
    refine (failsLike_discoveryPass source pass pending).bind fun result => ?_
    obtain ⟨requests, progress⟩ := result
    cases progress with
    | true => exact ih (pass + 1) requests
    | false => exact .pure pass

end

namespace Discovery

variable {source : Source} {state next last : Discovery}

/-- What holds of the labels that were reported: none was reported twice, the table lists none of
them and the virtual machine provides none, and a strict parse has failed if there are any. -/
structure Reports (source : Source) (state : Discovery) : Prop where
  once : state.reported.Nodup
  absent : ∀ label ∈ state.reported,
    source.index.offset? label = none ∧ label ∉ source.options.builtinLabels
  failed : state.failed = true ↔ source.options.lenient = false ∧ state.reported ≠ []

/-- Before anything is discovered nothing is reported. -/
theorem reports_empty (source : Source) : Reports source {} where
  -- All of its lists are empty.
  once := List.nodup_nil
  absent := by
    intro label listed
    cases listed
  failed := by simp

/-- A change reports no label that it should not. -/
theorem Reports.step (reports : state.Reports source) (step : state.Step source next) :
    next.Reports source := by
  obtain ⟨once, absent, failed⟩ := reports
  -- Of all changes only a report is about labels that were reported.
  cases step with
  | note segments invalidTexts reported problems fails =>
    exact ⟨by rwa [reported], by rwa [reported], by rwa [reported, fails]⟩
  | report label unplaced =>
    unfold reportUnregistered
    split
    · exact ⟨once, absent, failed⟩
    · -- The label is none of those that were reported before.
      rename_i fresh
      simp only [Bool.or_eq_true, List.contains_iff_mem, not_or] at fresh
      refine ⟨List.nodup_cons.mpr ⟨fresh.2, once⟩, ?_, ?_⟩
      · exact List.forall_mem_cons.mpr ⟨⟨unplaced, fresh.1⟩, absent⟩
      · simp only [addProblem, log, Bool.or_eq_true, Bool.not_eq_true', failed]
        simp +contextual
  | spoil offset cause unreadable => exact ⟨once, absent, failed⟩
  | name label offset existing placed here => exact ⟨once, absent, failed⟩
  | place label offset content placed inside fresh reads => exact ⟨once, absent, failed⟩
  | replace offset existing content here notCode rises reads => exact ⟨once, absent, failed⟩

/-- Changes report no label that they should not. -/
theorem Reports.reaches (reports : state.Reports source) (reached : state.Reaches source last) :
    last.Reports source := by
  -- Each change keeps what is said about the reports.
  induction reached with
  | refl state => exact reports
  | step first others ih => exact ih (reports.step first)

end Discovery

end QuestScript
