import QuestScript.Proofs.Discovery.Loops
import QuestScript.Proofs.Flow.Levels
import QuestScript.Proofs.Parse.Tiling

/-! A parse ends, whatever it is given. -/

namespace QuestScript

/-- The place that a walk from segment to segment has come to, and the segments before it. -/
structure Walk where
  offset : Nat := 0
  tiles : List Tile := []

namespace Walk

/-- A walk that has come less far than another. -/
def Before (walk later : Walk) : Prop := walk.offset < later.offset

/-- A place before one that is before another is before that. -/
theorem before_trans (walk middle later : Walk) (first : walk.Before middle)
    (second : middle.Before later) : walk.Before later :=
  Nat.lt_trans first second

end Walk

namespace Source

/-- A step of the walk from segment to segment. -/
def walkOn (source : Source) (segments : SegmentMap) (walk : Walk) : Walk ⊕ List Tile :=
  if source.bytes.length ≤ walk.offset then .inr walk.tiles
  else
    let tile := source.tileAt segments walk.offset
    .inl ⟨walk.offset + tile.segment.size source.options.width, walk.tiles ++ [tile]⟩

/-- The segments of a script are found by a walk that ends, and each step of it gets further. -/
theorem climbs_tiles (source : Source) (segments : SegmentMap) :
    Climbs (source.walkOn segments) Walk.Before {} (source.tiles segments) := by
  -- What is left to do is what is left of the script.
  let run (steps : Nat) (walk : Walk) : List Tile :=
    walk.tiles ++ source.tilesFrom segments steps walk.offset
  change Climbs _ _ _ (run source.bytes.length {})
  refine climbs_of_bound (fun _ => True) (fun walk : Walk => source.bytes.length - walk.offset)
    ?_ ?_ ?_ Walk.before_trans trivial (Nat.sub_le _ _)
  · intro steps walk
    simp only [run, walkOn, tilesFrom]
    split
    · simp
    · simp
  · intro walk _ none
    have past : source.bytes.length ≤ walk.offset := Nat.le_of_sub_eq_zero none
    simp [run, walkOn, tilesFrom, past]
  · intro walk next _ step
    unfold walkOn at step
    split at step
    · cases step
    · -- No segment is empty.
      rename_i inside
      cases step
      have positive := tileAt_size_pos segments (Nat.lt_of_not_le inside)
      refine ⟨trivial, ?_, ?_⟩
      · dsimp only
        omega
      · exact Nat.lt_add_of_pos_right positive

end Source

/-- All loops of a parse end, whatever it is given, with options that are strict or lenient.

A loop is given by what one step of it does, and it comes to what the parse uses. The reader of
instructions moves forward with every step, in a segment that is discovered and in a range that is
guessed about. Control drops to ever later offsets, the walk over the segments gets further with
every step, and a discovery takes at most three passes for each offset of a label inside the script,
and a last one. A search along the flow graph is not cut short by the levels it is given. -/
theorem parse_terminates (bytes : List UInt8) (labels : LabelTable) (entries : List Label)
    (opcodes : OpcodeTable) (options : ParseOptions) :
    let source : Source := ⟨bytes, .ofTable labels, opcodes, options⟩
    (∀ offset, Climbs (source.readSegment offset (source.stopAt offset)) Reading.Before
      ⟨Reader.within bytes offset bytes.length, [], []⟩
      (source.decodeSegment offset (source.stopAt offset))) ∧
    (∀ offset, Climbs (readRange opcodes options.width) Reading.Before
      ⟨Reader.within bytes offset (source.stopAt offset), [], []⟩
      (decodeRange bytes offset (source.stopAt offset) opcodes options.width)) ∧
    (∀ label kind state, Climbs (discoverLink source) (Link.Before source) ⟨label, kind, state⟩
      (discover source label kind state)) ∧
    (∀ segments, Climbs (source.walkOn segments) Walk.Before {} (source.tiles segments)) ∧
    (∃ visited, Loops (makePass source) (.first entries) visited (runDiscovery source entries {}) ∧
      visited.length ≤ 3 * (labels.offsetsBelow bytes.length).length + 1) ∧
    (∀ graph block before levels,
      (∀ register, (registerBefore graph (maxVisits + 1 + levels) [] block before register).run {} =
        (registerBefore graph (maxVisits + 1) [] block before register).run {}) ∧
      ∀ position, (stackBefore graph (maxVisits + 1 + levels) [] block before position).run {} =
        (stackBefore graph (maxVisits + 1) [] block before position).run {}) := by
  intro source
  refine ⟨fun offset => source.climbs_decodeSegment offset (source.stopAt_le offset),
    fun offset => climbs_decodeRange bytes offset _ opcodes options.width,
    fun label kind state => climbs_discover rfl label kind state,
    fun segments => source.climbs_tiles segments, loops_runDiscovery rfl entries, ?_⟩
  -- A level is given up for every visit, and a visit more than there may be is never made.
  intro graph block before levels
  constructor
  · intro register
    exact (sameFrom_registerBefore graph (by omega) (by omega) (by omega) (by omega) [] block before
      register).run_eq
  · intro position
    exact (sameFrom_stackBefore graph (by omega) (by omega) (by omega) (by omega) [] block before
      position).run_eq

end QuestScript
