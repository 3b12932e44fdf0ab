import QuestScript.Proofs.Discovery.Failure
import QuestScript.Proofs.Parse.Labels

/-! What a parse comes to: a failure, or an outcome whose problems say whether it has a value. -/

namespace QuestScript

/-- What a parse says about a label that has no place. -/
def unregisteredText (label : Label) : String :=
  s!"Label {label} is not registered in the label table."

/-- What a parse says about segments that end elsewhere than the script. -/
def corruptText : String := "The script code is corrupt."

/-- The text about a label says which one it is. -/
theorem unregisteredText_inj {a b : Label} : unregisteredText a = unregisteredText b ↔ a = b :=
  labelText_inj _ _

/-- The text about segments is none that begins with another letter. -/
theorem corruptText_ne_append {front : String} (begins : front.toList.head? = some 'L')
    (middle back : String) : corruptText ≠ front ++ middle ++ back := by
  intro same
  -- The first letters of both texts differ.
  have first := congrArg (·.toList.head?) same
  simp only [String.toList_append, List.head?_append, begins, Option.some_or] at first
  exact absurd first (by decide)

/-- The text about segments is not one about a label. -/
theorem corruptText_ne (label : Label) :
    corruptText ≠ unregisteredText label ∧ corruptText ≠ strayText label :=
  ⟨corruptText_ne_append rfl _ _, corruptText_ne_append rfl _ _⟩

namespace Source

variable {source : Source} {state : Discovery} {tiles : List Tile} {problem : Problem}

/-- The problems of a parse that comes to some segments: labels without a place, labels at which no
segment starts, and segments that end elsewhere than the script. -/
def problemsOf (source : Source) (state : Discovery) (tiles : List Tile) : List Problem :=
  state.problems ++ (source.strayLabels tiles ++ sizeProblem source.bytes.length
    (tiles.map (·.segment.size source.options.width)).sum)

/-- A label that was reported is a problem. -/
theorem unregistered_mem_problemsOf (accounts : state.Accounts source) {label : Label}
    (listed : label ∈ state.reported) :
    Discovery.unregistered source.options label ∈ source.problemsOf state tiles := by
  -- The problems of the discovery come first, and are those of the labels that it has reported.
  refine List.mem_append_left _ ?_
  rw [accounts]
  exact List.mem_map_of_mem (List.mem_reverse.mpr listed)

/-- Segments that end elsewhere than the script are a problem. -/
theorem exists_corrupt_of_ne
    (other : (tiles.map (·.segment.size source.options.width)).sum ≠ source.bytes.length) :
    ∃ problem ∈ source.problemsOf state tiles,
      problem.severity = .error ∧ problem.summary = corruptText := by
  -- The problem of the size comes last.
  obtain ⟨problem, made, severe, about⟩ : ∃ problem, sizeProblem source.bytes.length
      (tiles.map (·.segment.size source.options.width)).sum = [problem] ∧
        problem.severity = .error ∧ problem.summary = corruptText :=
    ⟨_, if_neg other, rfl, rfl⟩
  refine ⟨problem, List.mem_append_right _ (List.mem_append_right _ ?_), severe, about⟩
  rw [made]
  exact List.mem_cons_self

/-- What a tiling adds to the problems of its discovery: labels that it leaves out, or its size. -/
theorem tiling_cases
    (listed : problem ∈ source.strayLabels tiles ++ sizeProblem source.bytes.length
      (tiles.map (·.segment.size source.options.width)).sum) :
    (∃ label, problem.severity = .warning ∧ problem.summary = strayText label) ∨
      (tiles.map (·.segment.size source.options.width)).sum ≠ source.bytes.length ∧
        problem.severity = .error ∧ problem.summary = corruptText := by
  -- The two kinds are listed one after the other.
  rcases List.mem_append.mp listed with stray | size
  · obtain ⟨place, -, rfl⟩ := List.mem_map.mp stray
    exact .inl ⟨place.label, rfl, rfl⟩
  · unfold sizeProblem at size
    split at size
    · cases size
    · rename_i other
      obtain rfl := List.mem_singleton.mp size
      exact .inr ⟨other, rfl, rfl⟩

/-- A problem is about a label that was reported, or is added by the tiling. -/
theorem problemsOf_cases (accounts : state.Accounts source)
    (listed : problem ∈ source.problemsOf state tiles) :
    (∃ label ∈ state.reported, problem = Discovery.unregistered source.options label) ∨
      (∃ label, problem.severity = .warning ∧ problem.summary = strayText label) ∨
      (tiles.map (·.segment.size source.options.width)).sum ≠ source.bytes.length ∧
        problem.severity = .error ∧ problem.summary = corruptText := by
  -- The discovery accounts for its problems by the labels that it has reported.
  rcases List.mem_append.mp listed with reported | added
  · left
    rw [accounts] at reported
    obtain ⟨label, known, rfl⟩ := List.mem_map.mp reported
    exact ⟨label, List.mem_reverse.mp known, rfl⟩
  · exact .inr (tiling_cases added)

/-- Among the problems, a label without a place is one that was reported. -/
theorem reported_of_summary (accounts : state.Accounts source) {label : Label}
    (listed : problem ∈ source.problemsOf state tiles)
    (about : problem.summary = unregisteredText label) :
    label ∈ state.reported ∧ problem = Discovery.unregistered source.options label := by
  -- Of the three kinds of text only the first one can be the same, and it tells the label.
  rcases problemsOf_cases accounts listed with
    ⟨other, known, rfl⟩ | ⟨other, -, stray⟩ | ⟨-, -, size⟩
  · obtain rfl : other = label := unregisteredText_inj.mp about
    exact ⟨known, rfl⟩
  · exact absurd (about.symm.trans stray)
      (unregistered_ne_strayText source.options label other)
  · exact absurd (size.symm.trans about) (corruptText_ne label).1

/-- A label without a place is a problem as often as it was reported. -/
theorem countP_unregistered (accounts : state.Accounts source) (tiles : List Tile) (label : Label) :
    (source.problemsOf state tiles).countP (·.summary == unregisteredText label) =
      state.reported.count label := by
  have others : (source.strayLabels tiles ++ sizeProblem source.bytes.length
      (tiles.map (·.segment.size source.options.width)).sum).countP
        (·.summary == unregisteredText label) = 0 := by
    refine List.countP_eq_zero.mpr fun problem added => ?_
    rw [beq_iff_eq]
    rcases tiling_cases added with ⟨other, -, stray⟩ | ⟨-, -, size⟩
    · rw [stray]
      exact (unregistered_ne_strayText source.options label other).symm
    · rw [size]
      exact (corruptText_ne label).1
  rw [problemsOf, List.countP_append, others, accounts, List.countP_map, List.count,
    List.countP_reverse, Nat.add_zero]
  -- The texts tell the labels apart.
  refine List.countP_congr fun other _ => ?_
  simp only [Function.comp_apply, beq_iff_eq]
  exact unregisteredText_inj

/-- How a parse concludes that has come to some segments. -/
structure Concludes (source : Source) (table : LabelTable) (tiles : List Tile)
    (outcome : Outcome Script) : Prop where
  /-- A lenient parse has a value, whatever is wrong. -/
  lenient : source.options.lenient = true → outcome.value ≠ none
  /-- A strict parse has none exactly if there is an error among the problems. -/
  strict : source.options.lenient = false →
    (outcome.value = none ↔ ∃ problem ∈ outcome.problems, problem.severity = .error)
  /-- No label is said twice to have no place. -/
  once : ∀ label, outcome.problems.countP (·.summary == unregisteredText label) ≤ 1
  /-- This is said of no label that has one, and of none that the virtual machine provides, and it
  is an error only in a strict parse. -/
  absent : ∀ label, ∀ problem ∈ outcome.problems, problem.summary = unregisteredText label →
    table.offset? label = none ∧ label ∉ source.options.builtinLabels ∧
      problem.severity = if source.options.lenient then .warning else .error
  /-- The code is said to be corrupt exactly if the segments end elsewhere than the script. -/
  corrupt : (∃ problem ∈ outcome.problems,
      problem.severity = .error ∧ problem.summary = corruptText) ↔
    (tiles.map (·.segment.size source.options.width)).sum ≠ source.bytes.length

/-- A strict parse has failed exactly if there is an error among its problems. -/
theorem exists_error_iff (accounts : state.Accounts source) (reports : state.Reports source)
    (strict : source.options.lenient = false) (tiles : List Tile) :
    (∃ problem ∈ source.problemsOf state tiles, problem.severity = .error) ↔
      state.failed = true ∨
        (tiles.map (·.segment.size source.options.width)).sum ≠ source.bytes.length := by
  constructor
  · rintro ⟨problem, listed, severe⟩
    rcases problemsOf_cases accounts listed with
      ⟨label, known, -⟩ | ⟨label, mild, -⟩ | ⟨other, -, -⟩
    · exact .inl (reports.failed.mpr ⟨strict, List.ne_nil_of_mem known⟩)
    · cases mild.symm.trans severe
    · exact .inr other
  · rintro (failed | other)
    · -- There is a label that was reported, and a strict parse takes that for an error.
      obtain ⟨label, known⟩ := List.exists_mem_of_ne_nil _ (reports.failed.mp failed).2
      exact ⟨_, unregistered_mem_problemsOf accounts known,
        by simp [Discovery.unregistered, strict]⟩
    · obtain ⟨problem, listed, severe, -⟩ := exists_corrupt_of_ne other
      exact ⟨problem, listed, severe⟩

/-- A discovery is assembled to an outcome that concludes the parse. -/
theorem concludes_assemble {table : LabelTable} (indexed : source.index = .ofTable table)
    (accounts : state.Accounts source) (reports : state.Reports source) :
    source.Concludes table (source.tiles state.segments) (source.assemble state).1 where
  lenient := by
    intro lenient
    -- Nothing has failed in a lenient parse.
    have passed : state.failed = false := by
      rw [Bool.eq_false_iff]
      intro failed
      cases (reports.failed.mp failed).1.symm.trans lenient
    simp [assemble, passed, lenient]
  strict := by
    intro strict
    rw [show (source.assemble state).1.problems =
      source.problemsOf state (source.tiles state.segments) from rfl,
      exists_error_iff accounts reports strict]
    -- Without a value there is an error, and the other way round.
    simp only [assemble, strict, sizeProblem, List.sum_eq_foldr]
    split <;> simp_all
  once := by
    intro label
    change (source.problemsOf state (source.tiles state.segments)).countP _ ≤ 1
    rw [countP_unregistered accounts, reports.once.count]
    split <;> omega
  absent := by
    intro label problem listed about
    obtain ⟨known, rfl⟩ := reported_of_summary accounts listed about
    obtain ⟨unplaced, unprovided⟩ := reports.absent label known
    rw [indexed, LabelIndex.offset?_ofTable] at unplaced
    exact ⟨unplaced, unprovided, rfl⟩
  corrupt := by
    constructor
    · -- The other kinds of problems have other texts.
      rintro ⟨problem, listed, -, about⟩
      rcases problemsOf_cases accounts listed with
        ⟨label, -, rfl⟩ | ⟨label, -, stray⟩ | ⟨other, -, -⟩
      · exact absurd about.symm (corruptText_ne label).1
      · exact absurd (about.symm.trans stray) (corruptText_ne label).2
      · exact other
    · intro other
      exact exists_corrupt_of_ne other

end Source

/-- What a parse comes to, whatever it is given.

A lenient parse has a value. A strict one may fail, but only at an offset inside the script at which
no instruction can be decoded, and with the reason for that. Otherwise its segments follow each
other from the start to the end, and they and what was discovered decide about the problems and
about the value. -/
theorem parse_outcome (bytes : List UInt8) (labels : LabelTable) (entries : List Label)
    (opcodes : OpcodeTable) (options : ParseOptions) :
    let source : Source := ⟨bytes, .ofTable labels, opcodes, options⟩
    (options.lenient = true → ∃ script problems,
      (parse bytes labels entries opcodes options).1 = .ok ⟨some script, problems⟩) ∧
    (∀ failure, (parse bytes labels entries opcodes options).1 = .error failure →
      source.FailsAt failure) ∧
    ∀ outcome, (parse bytes labels entries opcodes options).1 = .ok outcome →
      ∃ passes state tiles, runDiscovery source entries {} = .ok passes state ∧
        source.Tiled state.segments 0 tiles ∧ source.Concludes labels tiles outcome := by
  intro source
  -- Only discovery fails, and what fails in one of its passes fails at an offset inside the script.
  have fails : ∀ failure, (parse bytes labels entries opcodes options).1 = .error failure →
      source.FailsAt failure := by
    intro failure failed
    unfold parse at failed
    dsimp only at failed
    split at failed
    · rename_i cause state run
      cases failed
      exact failsLike_discoveryPasses source _ _ _ _ _ _ run
    · cases failed
  -- The tiles of what was discovered are put together, and the problems that were reported on the
  -- way are accounted for.
  have concludes : ∀ outcome, (parse bytes labels entries opcodes options).1 = .ok outcome →
      ∃ passes state tiles, runDiscovery source entries {} = .ok passes state ∧
        source.Tiled state.segments 0 tiles ∧ source.Concludes labels tiles outcome := by
    intro outcome parsed
    obtain ⟨passes, state, run, rfl⟩ := parse_eq_ok.mp parsed
    have reports := (Discovery.reports_empty source).reaches (reaches_of_runDiscovery run)
    exact ⟨passes, state, source.tiles state.segments, run, source.tiled_tiles state.segments,
      Source.concludes_assemble rfl (accounts_of_runDiscovery run) reports⟩
  refine ⟨?_, fails, concludes⟩
  -- Only a strict parse fails, and what a lenient one concludes is never without a value.
  intro lenient
  cases parsed : (parse bytes labels entries opcodes options).1 with
  | error failure => cases (fails failure parsed).strict.symm.trans lenient
  | ok outcome =>
    obtain ⟨value, problems⟩ := outcome
    obtain ⟨_, _, _, _, _, concluded⟩ := concludes _ parsed
    obtain ⟨script, rfl⟩ := Option.ne_none_iff_exists'.mp (concluded.lenient lenient)
    exact ⟨script, problems, rfl⟩

/-- The index of a table that has no other label than that of the entry. -/
theorem index_entryOnly : LabelIndex.ofTable [0] = .ofPlaces [⟨0, 0⟩] := by cbv

/-- A strict parse fails at an opcode that lacks two of its arguments. -/
theorem parse_missingArguments :
    (parse [0x00, 0xF8, 0xDC, 0x01] [0] [0] .standard {}).1 = .error ⟨1, .truncated 4 1 0⟩ := by
  rw [parse, index_entryOnly]
  rfl

/-- A strict parse has no value for a jump to a label without a place. -/
theorem parse_unregisteredJump :
    (parse [0x28, 5, 0] [0] [0] .standard {}).1 = .ok ⟨none, [Discovery.unregistered {} 5]⟩ := by
  rw [parse, index_entryOnly]
  rfl

/-- The one fails where no instruction can be decoded, and the other has an error among its
problems. -/
theorem parse_outcome_strict :
    ((parse [0x00, 0xF8, 0xDC, 0x01] [0] [0] .standard {}).1 = .error ⟨1, .truncated 4 1 0⟩ ∧
      Source.FailsAt ⟨[0x00, 0xF8, 0xDC, 0x01], .ofTable [0], .standard, {}⟩
        ⟨1, .truncated 4 1 0⟩) ∧
    ((parse [0x28, 5, 0] [0] [0] .standard {}).1 = .ok ⟨none, [Discovery.unregistered {} 5]⟩ ∧
      ∃ tiles, Source.Concludes ⟨[0x28, 5, 0], .ofTable [0], .standard, {}⟩ [0] tiles
        ⟨none, [Discovery.unregistered {} 5]⟩) := by
  refine ⟨⟨parse_missingArguments, ?_⟩, parse_unregisteredJump, ?_⟩
  · -- The failure is at the second opcode, whose arguments need more bytes than there are.
    exact (parse_outcome _ [0] [0] .standard {}).2.1 _ parse_missingArguments
  · -- The tiles are those of a discovery that has reported the label.
    obtain ⟨_, _, tiles, _, _, concludes⟩ :=
      (parse_outcome _ [0] [0] .standard {}).2.2 _ parse_unregisteredJump
    exact ⟨tiles, concludes⟩

end QuestScript
