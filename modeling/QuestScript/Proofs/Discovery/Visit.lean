import QuestScript.Proofs.Discovery.Order

/-! What one label makes of a discovery, and what is discovered because of it. -/

namespace QuestScript

namespace Source

/-- The label of the code that control drops into from some instructions at an offset. -/
def dropFrom (source : Source) (offset : Nat) (instructions : List Instruction) : Option Label :=
  (if leavesExplicitly instructions then none else source.index.firstAfter? offset).map (·.label)

/-- What a range becomes that is decoded as a kind: its content, the label that control drops into
from there, and whether the range has turned out to be no text. -/
inductive Becomes (source : Source) (offset : Nat) :
    SegmentKind → Content → Option Label → Bool → Prop where
  | data : Becomes source offset .data (.data (source.slice offset (source.stopAt offset))) none false
  | text {value : String} (read : source.decodeText offset (source.stopAt offset) = .ok value) :
    Becomes source offset .text (.text value (some (source.stopAt offset - offset))) none false
  | noText {cause : DecodeError}
    (unreadable : source.decodeText offset (source.stopAt offset) = .error cause) :
    Becomes source offset .text (.data (source.slice offset (source.stopAt offset))) none true
  | code {instructions : List Instruction} {journal : Journal}
    (read : source.decodeSegment offset (source.stopAt offset) = .ok (instructions, journal)) :
    Becomes source offset .code (.code instructions) (source.dropFrom offset instructions) false

end Source

namespace Discovery

/-- The discovery with a segment that was decoded at an offset, with the count of those that were
decoded again, and with its log. -/
def decoded (state : Discovery) (offset : Nat) (segment : Segment) (spoiled : Bool)
    (redecoded : Nat) (journal : Journal) : Discovery :=
  { state with
      segments := state.segments.insert offset segment
      invalidTexts := if spoiled then offset :: state.invalidTexts else state.invalidTexts
      redecoded := redecoded
      journal := journal }

/-- What a label that is discovered as a kind makes of a discovery, and the label of the code that
control drops into. -/
inductive Visits (source : Source) (label : Label) (kind : SegmentKind) (state : Discovery) :
    Option Label → Discovery → Prop where
  /-- The label has no place in the script. -/
  | nowhere {after : Discovery}
    (outside : ∀ offset, source.index.offset? label = some offset → source.bytes.length ≤ offset)
    (segments : after.segments = state.segments)
    (invalidTexts : after.invalidTexts = state.invalidTexts)
    (analyzed : after.analyzed = state.analyzed) (redecoded : after.redecoded = state.redecoded) :
    Visits source label kind state none after
  /-- What is there is good enough, or cannot be any better. -/
  | kept {offset : Nat} {existing : Segment} (placed : source.index.offset? label = some offset)
    (here : state.segments.find? offset = some existing)
    (enough : kind.priority ≤ existing.kind.priority ∨
      kind = .text ∧ offset ∈ state.invalidTexts) :
    Visits source label kind state none (state.setSegment offset (existing.addLabel label))
  /-- The range is decoded for the first time. -/
  | fresh {offset : Nat} {content : Content} {next : Option Label} {spoiled : Bool}
    {journal : Journal} (placed : source.index.offset? label = some offset)
    (absent : state.segments.find? offset = none)
    (becomes : source.Becomes offset kind content next spoiled) :
    Visits source label kind state next
      (state.decoded offset ⟨[label], content⟩ spoiled state.redecoded journal)
  /-- The range is decoded again. -/
  | again {offset : Nat} {existing : Segment} {content : Content} {next : Option Label}
    {spoiled : Bool} {journal : Journal} (placed : source.index.offset? label = some offset)
    (here : state.segments.find? offset = some existing)
    (lower : existing.kind.priority < kind.priority)
    (untried : kind = .text → offset ∉ state.invalidTexts)
    (becomes : source.Becomes offset kind content next spoiled) :
    Visits source label kind state next
      (state.decoded offset ⟨(existing.addLabel label).labels, content⟩ spoiled
        (state.redecoded + 1) journal)

end Discovery

variable {source : Source} {state after : Discovery} {label : Label} {kind : SegmentKind}
  {next : Option Label}

/-- A range that is decoded becomes something, which is put in its place. -/
theorem decodeAt_eq_ok {offset : Nat} {labels : LabelSet}
    (run : decodeAt source offset kind labels state = .ok next after) :
    ∃ content spoiled journal, source.Becomes offset kind content next spoiled ∧
      after = state.decoded offset ⟨labels, content⟩ spoiled state.redecoded journal := by
  -- The kind says how the range is read, and only code may fail.
  unfold decodeAt at run
  dsimp only at run
  cases kind with
  | data =>
    cases run
    exact ⟨_, false, _, .data, rfl⟩
  | text =>
    dsimp only at run
    split at run
    · rename_i value read
      cases run
      exact ⟨_, false, _, .text read, rfl⟩
    · -- The text is given up in the log, and for good.
      rename_i cause unreadable
      cases run
      exact ⟨_, true, _, .noText unreadable, rfl⟩
  | code =>
    dsimp only at run
    split at run
    · cases run
    · rename_i instructions journal read
      cases run
      exact ⟨_, false, _, .code read, rfl⟩

/-- A label that is discovered is visited. -/
theorem visits_of_discoverOne (run : discoverOne source label kind state = .ok next after) :
    state.Visits source label kind next after := by
  -- Every way through the definition is one of the visits.
  unfold discoverOne at run
  split at run
  · rename_i absent
    cases run
    refine .nowhere ?_ (state.reportUnregistered_segments source.options label) ?_ ?_ ?_
    · intro offset placed
      rw [absent] at placed
      cases placed
    -- A report touches only the problems.
    all_goals
      unfold Discovery.reportUnregistered
      split <;> rfl
  · rename_i offset placed
    split at run
    · rename_i beyond
      cases run
      refine .nowhere ?_ rfl rfl rfl rfl
      intro other again
      rw [placed] at again
      cases again
      exact beyond
    · split at run
      · rename_i absent
        obtain ⟨content, spoiled, journal, becomes, rfl⟩ := decodeAt_eq_ok run
        exact .fresh placed absent becomes
      · rename_i existing here
        dsimp only at run
        split at run
        · -- The label is on the segment before that is decoded again.
          rename_i again
          simp only [Bool.and_eq_true, decide_eq_true_eq, Bool.not_eq_true', Bool.and_eq_false_imp,
            beq_iff_eq, List.contains_eq_mem, decide_eq_false_iff_not] at again
          obtain ⟨content, spoiled, journal, becomes, rfl⟩ := decodeAt_eq_ok run
          simp only [Discovery.decoded, Discovery.setSegment, Discovery.log,
            SegmentMap.insert_insert]
          exact .again placed here again.1 again.2 becomes
        · rename_i once
          cases run
          refine .kept placed here ?_
          by_cases lower : existing.kind.priority < kind.priority
          · -- Only a text that was given up is not decoded for a higher priority.
            right
            simpa [lower, Discovery.setSegment] using once
          · exact .inl (Nat.le_of_not_lt lower)

end QuestScript
